/-
What becomes of the frames of a client (`proxy/relayProxyServer.ts`: `handleEnvelope`,
`sendFrameToRelay` and the handlers of the relay sockets).

A frame for a relay is sent on its socket, or waits until the socket opens; when a socket
closes over frames that wait, the client is told that the relay failed.  A log keeps what
was asked for, what was sent and what was reported.
-/
import Nipworker.Lib.Run
import Nipworker.Proxy.ProxySession

namespace Nipworker

open List Option
namespace FrameDelivery

/-! ### Sessions -/

/-- Where a frame for a relay comes from: an envelope of the client, or a command. -/
inductive Origin
  | envelope
  | command
  deriving DecidableEq, Repr

structure RelayFrame where
  origin : Origin
  frame : ProxyFrame
  deriving DecidableEq, Repr

/-- The connection status `failed`. -/
structure FailedStatus where
  subId : String
  relayUrl : String
  message : String
  deriving DecidableEq, Repr

/-- What is logged: a client asks for a frame to be sent to a relay, a frame is sent on the
socket of a relay, and the client is told that a relay failed. -/
inductive LogEntry
  | asked (relayUrl : String) (frame : ProxyFrame)
  | sent (relayUrl : String) (frame : RelayFrame)
  | failed (status : FailedStatus)
  deriving DecidableEq, Repr

/-- `Session`, with the state of the client's socket and the log. -/
structure Session where
  relaySockets : Map String ReadyState
  pendingFrames : Map String (List RelayFrame)
  lastSubIdByRelay : Map String String
  clientOpen : Bool
  log : List LogEntry

namespace Session

def new : Session :=
  { relaySockets := ∅, pendingFrames := ∅, lastSubIdByRelay := ∅, clientOpen := true, log := [] }

/-- `ensureRelaySocket`; `none` when `new URL` or `new WebSocket` throws. -/
def ensureRelaySocket (accepts : String → Bool) (s : Session) (relayUrl : String) :
    Option Session :=
  if ((s.relaySockets.lookup relayUrl).any fun state => state ≠ .closed) = true then some s
  else if accepts relayUrl = true then
    some { s with
      relaySockets := AList.insert relayUrl .connecting s.relaySockets
      pendingFrames := AList.insert relayUrl [] s.pendingFrames }
  else none

/-- `parseSubscriptionFrameState`: the subscription a frame opens or closes. -/
def subscriptionOf : ProxyFrame → Option String
  | .req subId _ => if subId = "" then none else some subId
  | .close subId => if subId = "" then none else some subId
  | .auth _ => none
  | .other _ => none

def trackSubscriptionState (s : Session) (relayUrl : String) (frame : ProxyFrame) : Session :=
  match subscriptionOf frame with
  | some subId =>
    { s with lastSubIdByRelay := AList.insert relayUrl subId s.lastSubIdByRelay }
  | none => s

def sendFrameToRelay (s : Session) (relayUrl : String) (frame : RelayFrame) : Session :=
  match s.relaySockets.lookup relayUrl with
  | some .opened => { s with log := s.log ++ [.sent relayUrl frame] }
  | some .connecting =>
    { s with
      pendingFrames := AList.insert relayUrl
        ((s.pendingFrames.lookup relayUrl).getD [] ++ [frame]) s.pendingFrames }
  | some .closing => s
  | some .closed => s
  | none => s

def sendTracked (relayUrl : String) (s : Session) (frame : ProxyFrame) : Session :=
  (s.trackSubscriptionState relayUrl frame).sendFrameToRelay relayUrl ⟨.envelope, frame⟩

/-- The loop of `handleEnvelope`; a relay whose socket cannot be made ends it. -/
def handleRelays (accepts : String → Bool) (frames : List ProxyFrame) :
    List String → Session → Session
  | [], s => s
  | relayUrl :: relays, s =>
    match s.ensureRelaySocket accepts relayUrl with
    | none => s
    | some s => handleRelays accepts frames relays (frames.foldl (sendTracked relayUrl) s)

/-- The client asks for every frame to be sent to every relay once. -/
def handleEnvelope (accepts : String → Bool) (s : Session) (relays : List String)
    (frames : List ProxyFrame) : Session :=
  handleRelays accepts frames relays
    { s with log := s.log ++ relays.dedup.flatMap fun relayUrl => frames.map (.asked relayUrl) }

/-- `handleClientCommand` for `close_sub`: a `CLOSE` on every open socket. -/
def closeSub (s : Session) (subId : String) : Session :=
  { s with
    lastSubIdByRelay := s.relaySockets.keys.foldl
      (fun last relayUrl => AList.insert relayUrl subId last) s.lastSubIdByRelay
    log := s.log ++ (s.relaySockets.keys.filter fun relayUrl =>
      s.relaySockets.lookup relayUrl = some .opened).map fun relayUrl =>
        .sent relayUrl ⟨.command, .close subId⟩ }

/-- The `open` handler: the frames that wait are sent. -/
def sendPending (s : Session) (relayUrl : String) : Session :=
  match s.pendingFrames.lookup relayUrl with
  | none => s
  | some pending =>
    { s with
      log := s.log ++ pending.map (.sent relayUrl)
      pendingFrames := AList.insert relayUrl [] s.pendingFrames }

/-- The `error` handler. -/
def dropPending (s : Session) (relayUrl : String) : Session :=
  { s with pendingFrames := AList.erase relayUrl s.pendingFrames }

/-- The `close` handler: an open client is told when frames wait, and they are dropped. -/
def reportPending (s : Session) (relayUrl : String) (code reason : String) : Session :=
  let reports := (s.pendingFrames.lookup relayUrl).getD [] ≠ [] ∧ s.clientOpen = true
  { s.dropPending relayUrl with
    log :=
      if reports then
        s.log ++ [.failed
          { subId := (s.lastSubIdByRelay.lookup relayUrl).getD ""
            relayUrl := relayUrl
            message := "Connection failed: " ++ code ++ " " ++ reason }]
      else s.log }

end Session

/-- What happens to a session.  An `error` event, and a `close` event of an earlier socket
of a relay, may come at any time; a socket may also begin to close without an event. -/
inductive Act
  | envelope (relays : List String) (frames : List ProxyFrame)
  | authResponse (relayUrl event : String)
  | closeSub (subId : String)
  | opened (relayUrl : String)
  | closing (relayUrl : String)
  | errored (relayUrl : String)
  | closed (relayUrl code reason : String)
  | closedEarlier (relayUrl code reason : String)
  | clientLeaves
  deriving DecidableEq, Repr

/-- The code. -/
def step (accepts : String → Bool) (s : Session) : Act → Session
  | .envelope relays frames => s.handleEnvelope accepts relays frames
  | .authResponse relayUrl event => s.sendFrameToRelay relayUrl ⟨.command, .auth event⟩
  | .closeSub subId => s.closeSub subId
  | .opened relayUrl =>
    if s.relaySockets.lookup relayUrl = some .connecting then
      Session.sendPending
        { s with relaySockets := AList.insert relayUrl .opened s.relaySockets } relayUrl
    else s
  | .closing relayUrl =>
    if ((s.relaySockets.lookup relayUrl).any fun state => state ≠ .closed) = true then
      { s with relaySockets := AList.insert relayUrl .closing s.relaySockets }
    else s
  | .errored relayUrl => s.dropPending relayUrl
  | .closed relayUrl code reason =>
    if ((s.relaySockets.lookup relayUrl).any fun state => state ≠ .closed) = true then
      Session.reportPending
        { s with relaySockets := AList.insert relayUrl .closed s.relaySockets } relayUrl code reason
    else s
  | .closedEarlier relayUrl code reason => s.reportPending relayUrl code reason
  | .clientLeaves => { s with clientOpen := false }

/-! ### What is owed -/

/-- What an entry of the log changes in what is owed to a relay.  A frame that is not the
next one must not be sent. -/
def owe (relayUrl : String) : Option (List ProxyFrame) → LogEntry → Option (List ProxyFrame)
  | none, _ => none
  | some owing, .asked url frame => if url = relayUrl then some (owing ++ [frame]) else some owing
  | some owing, .sent _ ⟨.command, _⟩ => some owing
  | some owing, .sent url ⟨.envelope, frame⟩ =>
    if url = relayUrl then
      if owing.head? = some frame then some owing.tail else none
    else some owing
  | some owing, .failed status => if status.relayUrl = relayUrl then some [] else some owing

/-- The frames that a log leaves to be sent to a relay or reported; `none` when a frame was
sent twice, or out of order, or after it was reported. -/
def owed (log : List LogEntry) (relayUrl : String) : Option (List ProxyFrame) :=
  log.foldl (owe relayUrl) (some [])

def envelopeFrames (frames : List RelayFrame) : List ProxyFrame :=
  (frames.filter fun frame => frame.origin = .envelope).map RelayFrame.frame

def Session.waiting (s : Session) (relayUrl : String) : List ProxyFrame :=
  envelopeFrames ((s.pendingFrames.lookup relayUrl).getD [])

/-- A socket that is neither open nor closed; its `open` or `close` event is to come. -/
def Session.Undecided (s : Session) (relayUrl : String) : Prop :=
  s.relaySockets.lookup relayUrl = some .connecting ∨
    s.relaySockets.lookup relayUrl = some .closing

/-- **Nothing is lost**: the frames a client asked for were sent, once and in order, or
reported, or they wait for a socket that is undecided. -/
def Delivered (s : Session) : Prop :=
  ∀ relayUrl, owed s.log relayUrl = some (s.waiting relayUrl) ∧
    (s.waiting relayUrl ≠ [] → s.Undecided relayUrl)

/-- The steps that do not lose a frame. -/
def Safe (accepts : String → Bool) (s : Session) : Act → Prop
  | .envelope relays _ => relays.Nodup ∧ ∀ relayUrl ∈ relays,
      s.relaySockets.lookup relayUrl ≠ some .closing ∧
        (((s.relaySockets.lookup relayUrl).any fun state => state ≠ .closed) = true ∨
          accepts relayUrl = true)
  | .errored relayUrl => s.waiting relayUrl = []
  | .closed relayUrl _ _ => s.waiting relayUrl = [] ∨ s.clientOpen = true
  | .closedEarlier relayUrl _ _ => s.waiting relayUrl = [] ∨ s.clientOpen = true
  | _ => True

/-! ### Entries of the log -/

theorem owed_append (log more : List LogEntry) (relayUrl : String) :
    owed (log ++ more) relayUrl = more.foldl (owe relayUrl) (owed log relayUrl) := by
  rw [owed, foldl_append]
  rfl

theorem owed_append_of_other {log more : List LogEntry} {relayUrl : String}
    (h : ∀ entry ∈ more, ∀ owing, owe relayUrl (some owing) entry = some owing)
    {owing : List ProxyFrame} (howed : owed log relayUrl = some owing) :
    owed (log ++ more) relayUrl = some owing := by
  rw [owed_append, howed]
  induction more with
  | nil => rfl
  | cons entry rest ih =>
    rw [foldl_cons, h entry mem_cons_self]
    exact ih fun e he => h e (mem_cons_of_mem entry he)

theorem foldl_owe_asked (relayUrl : String) (frames owing : List ProxyFrame) :
    (frames.map (LogEntry.asked relayUrl)).foldl (owe relayUrl) (some owing)
      = some (owing ++ frames) := by
  induction frames generalizing owing with
  | nil => rw [append_nil]; rfl
  | cons frame rest ih =>
    rw [map_cons, foldl_cons, owe, if_pos rfl, ih, append_assoc,
      singleton_append]

theorem foldl_owe_asked_other {relayUrl url : String} (hne : url ≠ relayUrl)
    (frames owing : List ProxyFrame) :
    (frames.map (LogEntry.asked url)).foldl (owe relayUrl) (some owing) = some owing := by
  induction frames with
  | nil => rfl
  | cons frame rest ih => rw [map_cons, foldl_cons, owe, if_neg hne, ih]

theorem foldl_owe_envelope {relays : List String} (hnodup : relays.Nodup) (relayUrl : String)
    (frames owing : List ProxyFrame) :
    (relays.flatMap fun url => frames.map (LogEntry.asked url)).foldl (owe relayUrl) (some owing)
      = some (owing ++ if relayUrl ∈ relays then frames else []) := by
  induction relays generalizing owing with
  | nil => rw [if_neg not_mem_nil, append_nil]; rfl
  | cons url rest ih =>
    rw [nodup_cons] at hnodup
    rw [flatMap_cons, foldl_append]
    by_cases hurl : url = relayUrl
    · subst hurl
      rw [foldl_owe_asked, ih hnodup.2, if_neg hnodup.1, append_nil,
        if_pos mem_cons_self]
    · have hmem : relayUrl ∈ url :: rest ↔ relayUrl ∈ rest := by
        rw [mem_cons]
        exact ⟨fun h => h.resolve_left fun heq => hurl heq.symm, .inr⟩
      rw [foldl_owe_asked_other hurl, ih hnodup.2]
      simp only [hmem]

theorem foldl_owe_sent (relayUrl : String) (pending : List RelayFrame) (rest : List ProxyFrame) :
    (pending.map (LogEntry.sent relayUrl)).foldl (owe relayUrl)
        (some (envelopeFrames pending ++ rest)) = some rest := by
  induction pending with
  | nil => rfl
  | cons frame pending ih =>
    obtain ⟨origin, frame⟩ := frame
    cases origin with
    | envelope =>
      rw [envelopeFrames, filter_cons_of_pos (by simp), map_cons, map_cons,
        foldl_cons, cons_append, owe, if_pos rfl, List.head?_cons]
      dsimp only
      rw [if_pos rfl]
      exact ih
    | command =>
      rw [envelopeFrames, filter_cons_of_neg (by simp), map_cons, foldl_cons, owe]
      exact ih

theorem foldl_owe_sent_other {relayUrl url : String} (hne : url ≠ relayUrl)
    (pending : List RelayFrame) (owing : List ProxyFrame) :
    (pending.map (LogEntry.sent url)).foldl (owe relayUrl) (some owing) = some owing := by
  induction pending with
  | nil => rfl
  | cons frame rest ih =>
    obtain ⟨origin, frame⟩ := frame
    cases origin with
    | envelope => rw [map_cons, foldl_cons, owe, if_neg hne, ih]
    | command => rw [map_cons, foldl_cons, owe, ih]

/-! ### Envelopes -/

/-- The state while an envelope is handled: what is owed is what waits, and what the
envelope still has to send. -/
def Owes (due : String → List ProxyFrame) (s : Session) : Prop :=
  ∀ relayUrl, owed s.log relayUrl = some (s.waiting relayUrl ++ due relayUrl) ∧
    (s.waiting relayUrl ≠ [] → s.Undecided relayUrl)

theorem delivered_iff_owes (s : Session) : Delivered s ↔ Owes (fun _ => []) s := by
  refine forall_congr' fun relayUrl => ?_
  rw [append_nil]

section Envelope

variable {accepts : String → Bool} {s s' : Session} {url : String} {due : String → List ProxyFrame}

/-- The relay has a socket that is open, or opens. -/
def Session.Takes (s : Session) (relayUrl : String) : Prop :=
  s.relaySockets.lookup relayUrl = some .opened ∨
    s.relaySockets.lookup relayUrl = some .connecting

theorem trackSubscriptionState_fields (s : Session) (url : String) (frame : ProxyFrame) :
    (s.trackSubscriptionState url frame).relaySockets = s.relaySockets ∧
      (s.trackSubscriptionState url frame).pendingFrames = s.pendingFrames ∧
      (s.trackSubscriptionState url frame).log = s.log := by
  rw [Session.trackSubscriptionState]
  rcases Session.subscriptionOf frame with _ | subId
  · exact ⟨rfl, rfl, rfl⟩
  · exact ⟨rfl, rfl, rfl⟩

theorem Owes.waiting_of_opened (h : Owes due s)
    (hopen : s.relaySockets.lookup url = some .opened) : s.waiting url = [] := by
  by_contra hne
  obtain hstate | hstate := (h url).2 hne
  · rw [hopen] at hstate
    exact absurd (some.inj hstate) (by decide)
  · rw [hopen] at hstate
    exact absurd (some.inj hstate) (by decide)

theorem sendTracked_opened (hopen : s.relaySockets.lookup url = some .opened) (frame : ProxyFrame) :
    (Session.sendTracked url s frame).relaySockets = s.relaySockets ∧
      (Session.sendTracked url s frame).pendingFrames = s.pendingFrames ∧
      (Session.sendTracked url s frame).log = s.log ++ [.sent url ⟨.envelope, frame⟩] := by
  obtain ⟨hsockets, hpending, hlog⟩ := trackSubscriptionState_fields s url frame
  rw [Session.sendTracked, Session.sendFrameToRelay, hsockets, hopen]
  exact ⟨rfl, hpending, by rw [hlog]⟩

theorem sendTracked_connecting (hconnecting : s.relaySockets.lookup url = some .connecting)
    (frame : ProxyFrame) :
    (Session.sendTracked url s frame).relaySockets = s.relaySockets ∧
      (Session.sendTracked url s frame).pendingFrames = AList.insert url
        ((s.pendingFrames.lookup url).getD [] ++ [⟨.envelope, frame⟩]) s.pendingFrames ∧
      (Session.sendTracked url s frame).log = s.log := by
  obtain ⟨hsockets, hpending, hlog⟩ := trackSubscriptionState_fields s url frame
  rw [Session.sendTracked, Session.sendFrameToRelay, hsockets, hconnecting]
  exact ⟨rfl, by rw [hpending], hlog⟩

theorem Owes.sendTracked (h : Owes due s) {frame : ProxyFrame} {rest : List ProxyFrame}
    (hdue : due url = frame :: rest) (htakes : s.Takes url) :
    Owes (Function.update due url rest) (Session.sendTracked url s frame) ∧
      (Session.sendTracked url s frame).relaySockets = s.relaySockets := by
  obtain hopen | hconnecting := htakes
  · -- it is sent, and nothing waited before it
    obtain ⟨hsockets, hpending, hlog⟩ := sendTracked_opened hopen frame
    refine ⟨fun relayUrl => ?_, hsockets⟩
    obtain ⟨howed, hundecided⟩ := h relayUrl
    rw [Session.waiting, Session.Undecided, hpending, hsockets, hlog, owed_append, howed]
    refine ⟨?_, hundecided⟩
    by_cases hurl : url = relayUrl
    · subst hurl
      rw [← Session.waiting, h.waiting_of_opened hopen, hdue, Function.update_self]
      show (if url = url then _ else _) = _
      rw [if_pos rfl]
      exact if_pos rfl
    · rw [Function.update_of_ne (Ne.symm hurl)]
      exact if_neg hurl
  · -- it joins those that wait
    obtain ⟨hsockets, hpending, hlog⟩ := sendTracked_connecting hconnecting frame
    refine ⟨fun relayUrl => ?_, hsockets⟩
    obtain ⟨howed, hundecided⟩ := h relayUrl
    rw [Session.waiting, Session.Undecided, hpending, hsockets, hlog, Map.lookup_insert_ite]
    by_cases hurl : relayUrl = url
    · subst hurl
      rw [if_pos rfl, getD_some, Function.update_self, howed, hdue]
      refine ⟨?_, fun _ => .inl hconnecting⟩
      rw [Session.waiting, envelopeFrames, envelopeFrames, filter_append, map_append,
        append_assoc]
      rfl
    · rw [if_neg hurl, Function.update_of_ne hurl]
      exact ⟨howed, hundecided⟩

theorem Owes.sendAll (frames : List ProxyFrame) {rest : List ProxyFrame} : ∀ {due s}, Owes due s →
    due url = frames ++ rest → s.Takes url →
    Owes (Function.update due url rest) (frames.foldl (Session.sendTracked url) s) ∧
      (frames.foldl (Session.sendTracked url) s).relaySockets = s.relaySockets := by
  induction frames with
  | nil =>
    intro due s h hdue _
    rw [nil_append] at hdue
    rw [← hdue, Function.update_eq_self]
    exact ⟨h, rfl⟩
  | cons frame frames ih =>
    intro due s h hdue htakes
    obtain ⟨hsent, hsockets⟩ := h.sendTracked hdue htakes
    have htakes' : (Session.sendTracked url s frame).Takes url := by
      unfold Session.Takes at htakes ⊢
      rw [hsockets]
      exact htakes
    obtain ⟨hall, hsockets'⟩ := ih hsent (Function.update_self _ _ _) htakes'
    rw [Function.update_idem] at hall
    exact ⟨hall, hsockets'.trans hsockets⟩

theorem Owes.ensure (h : Owes due s) (hclosing : s.relaySockets.lookup url ≠ some .closing)
    (hs : s.ensureRelaySocket accepts url = some s') :
    Owes due s' ∧ s'.Takes url ∧
      ∀ relayUrl, relayUrl ≠ url → s'.relaySockets.lookup relayUrl
        = s.relaySockets.lookup relayUrl := by
  unfold Session.ensureRelaySocket at hs
  by_cases hthere : ((s.relaySockets.lookup url).any fun state => state ≠ .closed) = true
  · rw [if_pos hthere] at hs
    cases hs
    refine ⟨h, ?_, fun _ _ => rfl⟩
    obtain ⟨state, hstate, hne⟩ := (Option.any_eq_true _ _).mp hthere
    unfold Session.Takes
    rw [hstate] at hclosing ⊢
    cases state with
    | connecting => exact .inr rfl
    | opened => exact .inl rfl
    | closing => exact absurd rfl hclosing
    | closed => exact absurd hne (by decide)
  · rw [if_neg hthere] at hs
    by_cases haccepts : accepts url = true
    · rw [if_pos haccepts] at hs
      cases hs
      have hempty : s.waiting url = [] := by
        by_contra hne
        obtain hstate | hstate := (h url).2 hne
        · rw [hstate] at hthere
          exact hthere (by decide)
        · exact hclosing hstate
      refine ⟨fun relayUrl => ?_, .inr (AList.lookup_insert _), fun relayUrl hne => ?_⟩
      · obtain ⟨howed, hundecided⟩ := h relayUrl
        rw [Session.waiting, Session.Undecided]
        dsimp only
        rw [Map.lookup_insert_ite, Map.lookup_insert_ite]
        by_cases hurl : relayUrl = url
        · subst hurl
          rw [if_pos rfl, if_pos rfl, getD_some]
          rw [hempty] at howed
          exact ⟨howed, fun _ => .inl rfl⟩
        · rw [if_neg hurl, if_neg hurl]
          exact ⟨howed, hundecided⟩
      · exact AList.lookup_insert_ne hne
    · rw [if_neg haccepts] at hs
      exact absurd hs.symm (some_ne_none s')

theorem Owes.handleRelays {frames : List ProxyFrame} {relays : List String} (hnodup : relays.Nodup) :
    ∀ {due s}, Owes due s → (∀ relayUrl ∈ relays, due relayUrl = frames) →
    (∀ relayUrl ∉ relays, due relayUrl = []) →
    (∀ relayUrl ∈ relays, s.relaySockets.lookup relayUrl ≠ some .closing ∧
      (((s.relaySockets.lookup relayUrl).any fun state => state ≠ .closed) = true ∨
        accepts relayUrl = true)) →
    Owes (fun _ => []) (Session.handleRelays accepts frames relays s) := by
  induction relays with
  | nil =>
    intro due s h _ hnone _
    obtain rfl : due = fun _ => [] := funext fun relayUrl => hnone relayUrl not_mem_nil
    exact h
  | cons url relays ih =>
    intro due s h hdue hnone hready
    rw [nodup_cons] at hnodup
    obtain ⟨hclosing, haccepted⟩ := hready url mem_cons_self
    obtain ⟨s₁, hs₁⟩ : ∃ s₁, s.ensureRelaySocket accepts url = some s₁ := by
      unfold Session.ensureRelaySocket
      split
      · exact ⟨_, rfl⟩
      · next hnot => exact ⟨_, if_pos (haccepted.resolve_left hnot)⟩
    obtain ⟨howes, htakes, hothers⟩ := h.ensure hclosing hs₁
    have hall : due url = frames ++ [] := by
      rw [append_nil]
      exact hdue url mem_cons_self
    obtain ⟨hsent, hsockets⟩ := howes.sendAll frames hall htakes
    rw [Session.handleRelays, hs₁]
    refine ih hnodup.2 hsent (fun relayUrl hmem => ?_) (fun relayUrl hmem => ?_)
      fun relayUrl hmem => ?_
    · have hne : relayUrl ≠ url := fun heq => hnodup.1 (heq ▸ hmem)
      rw [Function.update_of_ne hne]
      exact hdue relayUrl (mem_cons_of_mem url hmem)
    · by_cases hurl : relayUrl = url
      · rw [hurl, Function.update_self]
      · rw [Function.update_of_ne hurl]
        refine hnone relayUrl fun hin => ?_
        obtain heq | hin := List.mem_cons.mp hin
        · exact hurl heq
        · exact hmem hin
    · have hne : relayUrl ≠ url := fun heq => hnodup.1 (heq ▸ hmem)
      rw [hsockets, hothers relayUrl hne]
      exact hready relayUrl (mem_cons_of_mem url hmem)

/-- **An envelope.** -/
theorem Delivered.envelope (h : Delivered s) {relays : List String} {frames : List ProxyFrame}
    (hsafe : Safe accepts s (.envelope relays frames)) :
    Delivered (s.handleEnvelope accepts relays frames) := by
  obtain ⟨hnodup, hready⟩ := hsafe
  have hstart : Owes (fun relayUrl => if relayUrl ∈ relays then frames else [])
      { s with log := s.log ++ relays.dedup.flatMap fun url => frames.map (.asked url) } := by
    intro relayUrl
    obtain ⟨howed, hundecided⟩ := h relayUrl
    refine ⟨?_, hundecided⟩
    show owed (s.log ++ _) relayUrl = _
    rw [owed_append, howed, hnodup.dedup, foldl_owe_envelope hnodup]
    rfl
  rw [delivered_iff_owes]
  exact Owes.handleRelays hnodup hstart (fun _ hmem => if_pos hmem) (fun _ hmem => if_neg hmem)
    hready

end Envelope

/-! ### The other steps -/

section Steps

variable {accepts : String → Bool} {s : Session} {url : String}

theorem Delivered.command (h : Delivered s) (url : String) (frame : ProxyFrame) :
    Delivered (s.sendFrameToRelay url ⟨.command, frame⟩) := by
  unfold Session.sendFrameToRelay
  rcases hstate : s.relaySockets.lookup url with _ | state
  · exact h
  · cases state with
    | connecting =>
      refine fun relayUrl => ?_
      obtain ⟨howed, hundecided⟩ := h relayUrl
      have hwaits : Session.waiting { s with
          pendingFrames := AList.insert url
            ((s.pendingFrames.lookup url).getD [] ++ [⟨.command, frame⟩]) s.pendingFrames } relayUrl
            = s.waiting relayUrl := by
        rw [Session.waiting]
        dsimp only
        rw [Map.lookup_insert_ite]
        by_cases hurl : relayUrl = url
        · subst hurl
          rw [if_pos rfl, getD_some, envelopeFrames, filter_append,
            filter_cons_of_neg (by simp), filter_nil, append_nil]
          rfl
        · rw [if_neg hurl]
          rfl
      rw [hwaits]
      exact ⟨howed, hundecided⟩
    | opened =>
      refine fun relayUrl => ⟨?_, (h relayUrl).2⟩
      refine owed_append_of_other (fun entry hentry owing => ?_) (h relayUrl).1
      rw [List.mem_singleton.mp hentry]
      rfl
    | closing => exact h
    | closed => exact h

theorem Delivered.closeSub (h : Delivered s) (subId : String) : Delivered (s.closeSub subId) := by
  refine fun relayUrl => ⟨?_, (h relayUrl).2⟩
  refine owed_append_of_other (fun entry hentry owing => ?_) (h relayUrl).1
  obtain ⟨url, -, rfl⟩ := List.mem_map.mp hentry
  rfl

theorem Delivered.opened (h : Delivered s) (url : String) :
    Delivered (Session.sendPending
      { s with relaySockets := AList.insert url .opened s.relaySockets } url) := by
  unfold Session.sendPending
  dsimp only
  rcases hpending : s.pendingFrames.lookup url with _ | pending
  · refine fun relayUrl => ⟨(h relayUrl).1, fun hne => ?_⟩
    by_cases hurl : relayUrl = url
    · subst hurl
      refine absurd ?_ hne
      rw [Session.waiting]
      dsimp only
      rw [hpending]
      rfl
    · have hsame := (h relayUrl).2 hne
      unfold Session.Undecided at hsame ⊢
      dsimp only
      rw [AList.lookup_insert_ne hurl]
      exact hsame
  · refine fun relayUrl => ?_
    obtain ⟨howed, hundecided⟩ := h relayUrl
    rw [Session.waiting, Session.Undecided]
    dsimp only
    rw [Map.lookup_insert_ite, Map.lookup_insert_ite, owed_append, howed]
    by_cases hurl : relayUrl = url
    · subst hurl
      rw [if_pos rfl, if_pos rfl, getD_some]
      refine ⟨?_, fun hne => absurd rfl hne⟩
      have hsent := foldl_owe_sent relayUrl pending []
      rw [append_nil] at hsent
      rw [Session.waiting, hpending, getD_some]
      exact hsent
    · rw [if_neg hurl, if_neg hurl, foldl_owe_sent_other (Ne.symm hurl)]
      exact ⟨rfl, hundecided⟩

theorem delivered_dropPending {log : List LogEntry}
    (howed : ∀ relayUrl, relayUrl ≠ url → owed log relayUrl = some (s.waiting relayUrl))
    (hurl : owed log url = some [])
    (hundecided : ∀ relayUrl, relayUrl ≠ url → s.waiting relayUrl ≠ [] → s.Undecided relayUrl) :
    Delivered { s.dropPending url with log := log } := by
  refine fun relayUrl => ?_
  rw [Session.waiting]
  dsimp only [Session.dropPending]
  rw [Map.lookup_erase_ite]
  by_cases hne : relayUrl = url
  · subst hne
    rw [if_pos rfl]
    exact ⟨hurl, fun hwaits => absurd rfl hwaits⟩
  · rw [if_neg hne]
    exact ⟨howed relayUrl hne, hundecided relayUrl hne⟩

theorem delivered_reportPending (howed : ∀ relayUrl, owed s.log relayUrl = some (s.waiting relayUrl))
    (hundecided : ∀ relayUrl, relayUrl ≠ url → s.waiting relayUrl ≠ [] → s.Undecided relayUrl)
    (hsafe : s.waiting url = [] ∨ s.clientOpen = true) (code reason : String) :
    Delivered (s.reportPending url code reason) := by
  unfold Session.reportPending
  dsimp only
  by_cases hreports : (s.pendingFrames.lookup url).getD [] ≠ [] ∧ s.clientOpen = true
  · rw [if_pos hreports]
    refine delivered_dropPending (fun relayUrl hne => ?_) ?_ hundecided
    · rw [owed_append, howed relayUrl]
      exact if_neg (Ne.symm hne)
    · rw [owed_append, howed url]
      exact if_pos rfl
  · rw [if_neg hreports]
    refine delivered_dropPending (fun relayUrl _ => howed relayUrl) ?_ hundecided
    have hempty : s.waiting url = [] := by
      obtain hempty | hopen := hsafe
      · exact hempty
      · have hnil : (s.pendingFrames.lookup url).getD [] = [] :=
          Classical.not_not.mp fun hne => hreports ⟨hne, hopen⟩
        rw [Session.waiting, hnil]
        rfl
    rw [howed url, hempty]

theorem undecided_insert {state : ReadyState} {relayUrl : String} (hne : relayUrl ≠ url)
    (h : s.Undecided relayUrl) :
    Session.Undecided { s with relaySockets := AList.insert url state s.relaySockets } relayUrl := by
  unfold Session.Undecided at h ⊢
  dsimp only
  rw [AList.lookup_insert_ne hne]
  exact h

/-- **A step** that is safe loses no frame. -/
theorem Delivered.step (h : Delivered s) {act : Act} (hsafe : Safe accepts s act) :
    Delivered (FrameDelivery.step accepts s act) := by
  cases act with
  | envelope relays frames => exact h.envelope hsafe
  | authResponse relayUrl event => exact h.command relayUrl _
  | closeSub subId => exact h.closeSub subId
  | opened relayUrl =>
    rw [FrameDelivery.step]
    by_cases hstate : s.relaySockets.lookup relayUrl = some .connecting
    · rw [if_pos hstate]
      exact h.opened relayUrl
    · rw [if_neg hstate]
      exact h
  | closing url =>
    rw [FrameDelivery.step]
    by_cases hstate : ((s.relaySockets.lookup url).any fun state => state ≠ .closed) = true
    · rw [if_pos hstate]
      refine fun relayUrl => ⟨(h relayUrl).1, fun hne => ?_⟩
      by_cases hurl : relayUrl = url
      · subst hurl
        exact .inr (AList.lookup_insert _)
      · exact undecided_insert hurl ((h relayUrl).2 hne)
    · rw [if_neg hstate]
      exact h
  | errored url =>
    refine delivered_dropPending (fun relayUrl _ => (h relayUrl).1) ?_
      fun relayUrl _ => (h relayUrl).2
    rw [(h url).1]
    exact congrArg some hsafe
  | closed url code reason =>
    rw [FrameDelivery.step]
    by_cases hstate : ((s.relaySockets.lookup url).any fun state => state ≠ .closed) = true
    · rw [if_pos hstate]
      have hundecided : ∀ relayUrl, relayUrl ≠ url → s.waiting relayUrl ≠ [] → Session.Undecided
          { s with relaySockets := AList.insert url .closed s.relaySockets } relayUrl :=
        fun relayUrl hne hwaits => undecided_insert hne ((h relayUrl).2 hwaits)
      exact @delivered_reportPending { s with
        relaySockets := AList.insert url .closed s.relaySockets } url (fun relayUrl => (h relayUrl).1)
        hundecided hsafe code reason
    · rw [if_neg hstate]
      exact h
  | closedEarlier url code reason =>
    exact delivered_reportPending (fun relayUrl => (h relayUrl).1)
      (fun relayUrl _ => (h relayUrl).2) hsafe code reason
  | clientLeaves => exact h

end Steps

/-- **Frames are sent or reported.**  In a run of steps that are safe, every frame that an
envelope asks to be sent to a relay is sent on its socket, once and in order, or the client is
told that the relay failed, or it waits for a socket that is yet to open or close. -/
theorem frames_sent_or_reported (accepts : String → Bool) (acts : List Act)
    (h : Run.Along (step accepts) (Safe accepts) Session.new acts) :
    Delivered (Run.exec (step accepts) Session.new acts) := by
  have hnew : Delivered Session.new := fun relayUrl => ⟨rfl, fun hne => absurd rfl hne⟩
  have hkeep : ∀ s act, Delivered s → Safe accepts s act → Delivered (step accepts s act) :=
    fun _ _ hs hsafe => hs.step hsafe
  exact h.exec hkeep hnew

/-- A subscription on two relays: one opens, and the other one closes before it does. -/
def twoRelays : List Act :=
  [.envelope ["wss://a.example", "wss://b.example"] [.req "s" "\x7b\x7d"], .opened "wss://a.example",
    .closed "wss://b.example" "1006" ""]

theorem frames_sent_or_reported_twoRelays :
    Delivered (Run.exec (step fun _ => true) Session.new twoRelays) := by
  refine frames_sent_or_reported (fun _ => true) twoRelays ⟨⟨by decide, ?_⟩, trivial, ?_, trivial⟩
  · intro relayUrl _
    have hnone : Session.new.relaySockets.lookup relayUrl = none := rfl
    exact ⟨fun h => some_ne_none _ (h.symm.trans hnone), .inr rfl⟩
  · exact .inr rfl

/-- The handshake of a relay fails: its `error` event drops the frames that wait, and its
`close` event finds none to report. -/
theorem failed_handshake_silent :
    ¬ Delivered (Run.exec (step fun _ => true) Session.new
      [.envelope ["wss://a.example"] [.req "s" "\x7b\x7d"], .errored "wss://a.example",
        .closed "wss://a.example" "1006" ""]) := by
  intro h
  exact absurd (h "wss://a.example").1 (by decide +kernel)

end FrameDelivery
end Nipworker
