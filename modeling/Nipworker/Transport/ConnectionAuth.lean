/-
Soundness of the NIP-42 handshake (`transport/connection.rs`).

A session lasts from a successful connect to the moment the transport is given up or
lost.  In a session that the relay opens with AUTH, the connection should take itself
for authenticated only when the relay accepts the AUTH event that was signed for this
session.  It does not look at the event id of an OK, so the answer to any event will do
while it is waiting.
-/
import Nipworker.Lib.History
import Nipworker.Transport.ConnectionSteps

namespace Nipworker

open RelayConnection List

def sessionStep (session : Option (List RelayEffect)) : RelayEffect → Option (List RelayEffect)
  | .opened => some []
  | .disconnected | .lost => none
  | effect => session.map (· ++ [effect])

def session (log : List RelayEffect) : Option (List RelayEffect) := log.foldl sessionStep none

def RelayEffect.receivedKind : RelayEffect → Option String
  | .received kind _ _ => some kind
  | _ => none

/-- The kind of the first frame the relay sent in the session. -/
def firstKind (log : List RelayEffect) : Option String := log.findSome? RelayEffect.receivedKind

/-- The relay opened the session with an AUTH challenge. -/
def AuthFirst (log : List RelayEffect) : Prop := firstKind log = some "AUTH"

/-- An AUTH event with this id was signed for a challenge of the session and sent in
it. -/
def AuthEventSent (log : List RelayEffect) (id : String) : Prop :=
  ∃ requestId challenge relay createdAt event,
    .signRequested requestId challenge relay createdAt ∈ log ∧
    .signed requestId event ∈ log ∧ .sent (authFrame event) ∈ log ∧ eventObjId event = some id

/-- After this log, a session opened with AUTH may call itself authenticated: the last
thing heard is the relay's yes to the AUTH event of the session. -/
def AuthOkAt (log : List RelayEffect) : Prop :=
  ∀ es, session log = some es → AuthFirst es →
    ∃ before id content, es = before ++ [.received "OK" (some id) (some content)] ∧
      acceptedContent content ∧ AuthEventSent before id

/-- Every time the connection called itself authenticated, it was right to. -/
def AuthSound (log : List RelayEffect) : Prop :=
  History.Always (fun before e => e = .authenticated → AuthOkAt before) log

/-! ### Logs -/

/-- An effect that neither begins nor ends a session, and is no frame of the relay. -/
def RelayEffect.IsPlain : RelayEffect → Prop
  | .opened | .disconnected | .lost | .received _ _ _ | .authenticated => False
  | _ => True

variable {e : RelayEffect} {added log : List RelayEffect} {sub content : Option String}

theorem RelayEffect.IsNeutral.isPlain (h : e.IsNeutral) : e.IsPlain := by
  cases e <;> trivial

theorem session_concat (log : List RelayEffect) (e : RelayEffect) :
    session (log ++ [e]) = sessionStep (session log) e := by
  rw [session, foldl_append]
  rfl

theorem session_append_plain (h : ∀ e ∈ added, e.IsPlain)
    (log : List RelayEffect) : session (log ++ added) = (session log).map (· ++ added) := by
  induction added generalizing log with
  | nil => simp
  | cons e added ih =>
    have he := h e mem_cons_self
    have hstep : session (log ++ [e]) = (session log).map (· ++ [e]) := by
      rw [session_concat]
      cases e <;> first | rfl | exact he.elim
    rw [append_cons, ih fun e' he' => h e' (mem_cons_of_mem e he'), hstep]
    cases session log <;> simp

theorem firstKind_append_plain (h : ∀ e ∈ added, e.IsPlain)
    (log : List RelayEffect) : firstKind (log ++ added) = firstKind log := by
  have hnone : added.findSome? RelayEffect.receivedKind = none := by
    rw [List.findSome?_eq_none_iff]
    intro e he
    have hplain := h e he
    cases e <;> first | rfl | exact hplain.elim
  rw [firstKind, firstKind, List.findSome?_append, hnone, Option.or_none]

theorem authSound_concat :
    AuthSound (log ++ [e]) ↔ AuthSound log ∧ (e = .authenticated → AuthOkAt log) :=
  History.always_concat

theorem authSound_append (h : ∀ e ∈ added, e ≠ .authenticated)
    (log : List RelayEffect) : AuthSound (log ++ added) ↔ AuthSound log :=
  History.always_append (fun e he _ heq => absurd heq (h e he)) log

/-! ### Between two frames of the relay -/

/-- Once the relay has said something in the session, the authentication state is
known. -/
def Answered (conn : RelayConnection) : Prop :=
  ∀ es, session conn.log = some es → firstKind es ≠ none → conn.authState ≠ .unknown

def KeepsAuth (conn conn' : RelayConnection) : Prop :=
  (Answered conn → Answered conn') ∧ (AuthSound conn'.log ↔ AuthSound conn.log)

variable {env : RelayEnv} {conn conn' conn'' : RelayConnection}

theorem KeepsAuth.trans (h : KeepsAuth conn conn') (h' : KeepsAuth conn' conn'') :
    KeepsAuth conn conn'' :=
  ⟨fun ha => h'.1 (h.1 ha), h'.2.trans h.2⟩

theorem RelayEffect.IsPlain.ne_authenticated (h : e.IsPlain) : e ≠ .authenticated := by
  rintro rfl
  exact h

theorem keepsAuth_of_plain (added : List RelayEffect) (hlog : conn'.log = conn.log ++ added)
    (hplain : ∀ e ∈ added, e.IsPlain)
    (hauth : conn'.authState = conn.authState ∨ conn'.authState ≠ .unknown) :
    KeepsAuth conn conn' := by
  refine ⟨fun ha es hes hkind => ?_, ?_⟩
  · rcases hauth with hauth | hauth
    · rw [hlog, session_append_plain hplain] at hes
      obtain ⟨es', hes', rfl⟩ := Option.map_eq_some_iff.mp hes
      rw [firstKind_append_plain hplain] at hkind
      rw [hauth]
      exact ha es' hes' hkind
    · exact hauth
  · rw [hlog]
    exact authSound_append (fun e he => (hplain e he).ne_authenticated) conn.log

theorem keepsAuth_of_ended (hlog : conn'.log = conn.log ++ added)
    (hadded : ∀ e ∈ added, e ≠ .authenticated) (hended : session conn'.log = none) :
    KeepsAuth conn conn' := by
  refine ⟨fun _ es hes => ?_, ?_⟩
  · rw [hended] at hes
    cases hes
  · rw [hlog]
    exact authSound_append hadded conn.log

theorem keepsAuth_neutral (h : conn.Neutral conn') : KeepsAuth conn conn' := by
  obtain ⟨added, hlog, hadded⟩ := h.log
  exact keepsAuth_of_plain added hlog (fun e he => (hadded e he).isPlain) (.inl h.authState)

theorem keepsAuth_emit (conn : RelayConnection) (he : e.IsPlain) :
    KeepsAuth conn (conn.emit e) := by
  refine keepsAuth_of_plain [e] rfl (fun e' he' => ?_) (.inl rfl)
  rw [List.mem_singleton.mp he']
  exact he

theorem keepsAuth_enqueue (conn : RelayConnection) (source : FrameSource) (text : String) :
    KeepsAuth conn (conn.enqueue env source text) := by
  rw [enqueue]
  split
  · exact keepsAuth_of_plain [.enqueued source text] rfl (by simp [RelayEffect.IsPlain]) (.inl rfl)
  · exact keepsAuth_neutral (.refl conn)

theorem keepsAuth_enqueueAll (source : FrameSource) (frames : List String)
    (conn : RelayConnection) :
    KeepsAuth conn (frames.foldl (fun c frame => c.enqueue env source frame) conn) := by
  induction frames generalizing conn with
  | nil => exact keepsAuth_neutral (.refl conn)
  | cons frame frames ih => exact (keepsAuth_enqueue conn source frame).trans (ih _)

theorem keepsAuth_close (conn : RelayConnection) : KeepsAuth conn conn.close := by
  have hlog : conn.close.log = conn.log ++ [.disconnected, .statusWritten "close"] := by
    simp [close, emit, clearBackoff]
  refine keepsAuth_of_ended hlog (by simp) ?_
  rw [hlog, session, foldl_append]
  rfl

theorem keepsAuth_connectDone (conn : RelayConnection) : KeepsAuth conn conn.connectDone := by
  have hlog : conn.connectDone.log = conn.log ++ [.opened, .statusWritten "connected"] := by
    simp [connectDone, emit]
  have hsession : session conn.connectDone.log = some [.statusWritten "connected"] := by
    rw [hlog, session, foldl_append]
    rfl
  refine ⟨fun _ es hes hkind => ?_, ?_⟩
  · rw [hsession] at hes
    cases hes
    exact absurd rfl hkind
  · rw [hlog]
    exact authSound_append (by simp) conn.log

theorem keepsAuth_loseTransport (conn : RelayConnection) (auth : AuthState) :
    KeepsAuth conn (conn.loseTransport env auth) := by
  have hlost : ∀ conn'', conn''.log = conn.log ++ [.lost, .statusWritten "failed"] →
      KeepsAuth conn conn'' := by
    intro conn'' hlog
    refine keepsAuth_of_ended hlog (by simp) ?_
    rw [hlog, session, foldl_append]
    rfl
  rw [loseTransport]
  split
  · exact keepsAuth_neutral (.refl conn)
  · exact keepsAuth_neutral (.refl conn)
  · exact keepsAuth_neutral (.refl conn)
  · exact hlost _ (by simp [emit, scheduleReconnectBackoff])

theorem keepsAuth_sendRawInternal (conn : RelayConnection) (text : String) :
    KeepsAuth conn (conn.sendRawInternal text) := by
  have hsent : KeepsAuth conn (conn.confirmConnection.emit (.sent text)) :=
    keepsAuth_emit conn.confirmConnection trivial
  refine hsent.trans ?_
  rw [sendRawInternal]
  dsimp only
  generalize conn.confirmConnection.emit (.sent text) = c
  split
  · rename_i sub _
    have hforget : ∀ d : RelayConnection, KeepsAuth d
        ((d.forgetSub sub).emit (.wrote sub (noticeFrame sub "CLOSED"))) :=
      fun d => keepsAuth_emit (d.forgetSub sub) trivial
    split
    · exact (keepsAuth_close c).trans (hforget _)
    · exact hforget c
  · rename_i sub _
    have hshadow : KeepsAuth c (c.shadowPreAuthReq text) := by
      refine keepsAuth_of_plain [] ?_ (by simp) (.inl ?_)
      · rw [shadowPreAuthReq]
        split <;> first | split <;> simp | simp
      · rw [shadowPreAuthReq]
        split <;> first | split <;> rfl | rfl
    exact hshadow.trans (keepsAuth_emit (RelayConnection.recordReq _ sub text) trivial)
  · exact keepsAuth_emit c trivial
  · exact keepsAuth_neutral (.refl c)

/-! ### Frames of the relay -/

variable (env) in
theorem setAuthenticated_spec (conn : RelayConnection) :
    Answered (conn.setAuthenticated env) ∧
      (AuthSound (conn.setAuthenticated env).log ↔ AuthSound conn.log ∧ AuthOkAt conn.log) := by
  rw [setAuthenticated]
  have hdone : Answered ({ conn with authState := .authenticated, preAuthQueue := [] }.emit
      .authenticated) := fun es _ _ => by simp [emit]
  have hsound : AuthSound ({ conn with authState := .authenticated, preAuthQueue := [] }.emit
      .authenticated).log ↔ AuthSound conn.log ∧ AuthOkAt conn.log := by
    rw [emit, authSound_concat]
    simp
  split
  · have hreplay : KeepsAuth _ (conn.preAuthQueue.foldl
        (fun c frame => c.enqueue env .authReplay frame)
        ({ conn with authState := .authenticated, preAuthQueue := [] }.emit .authenticated)) :=
      keepsAuth_enqueueAll .authReplay conn.preAuthQueue _
    exact ⟨hreplay.1 hdone, hreplay.2.trans hsound⟩
  · exact ⟨hdone, hsound⟩

theorem session_received (log : List RelayEffect) (kind : String) (sub content : Option String) :
    session (log ++ [.received kind sub content]) =
      (session log).map (· ++ [.received kind sub content]) :=
  session_concat log _

theorem authOkAt_of_first {kind : String}
    (hfirst : ∀ es, session log = some es → firstKind es = none) (hkind : kind ≠ "AUTH") :
    AuthOkAt (log ++ [.received kind sub content]) := by
  intro es hes hauth
  rw [session_received] at hes
  obtain ⟨before, hbefore, rfl⟩ := Option.map_eq_some_iff.mp hes
  have hthis : firstKind (before ++ [.received kind sub content]) = some kind := by
    rw [firstKind, List.findSome?_append, show List.findSome? _ before = none from
      hfirst before hbefore]
    rfl
  rw [AuthFirst, hthis] at hauth
  exact absurd (Option.some.inj hauth) hkind

theorem authOkAt_received_iff (haccepted : acceptedContent (content.getD "") = true) :
    AuthOkAt (log ++ [.received "OK" sub content]) ↔
      ∀ es, session log = some es → AuthFirst es → ∃ id, sub = some id ∧ AuthEventSent es id := by
  have hfirst : ∀ es, AuthFirst (es ++ [.received "OK" sub content]) ↔ AuthFirst es := by
    intro es
    rw [AuthFirst, AuthFirst, firstKind, List.findSome?_append, firstKind]
    cases es.findSome? RelayEffect.receivedKind with
    | none => simp [RelayEffect.receivedKind]
    | some kind => rfl
  constructor
  · intro h es hes hauth
    obtain ⟨before, id, content', heq, -, hsent⟩ := h (es ++ [.received "OK" sub content])
      (by rw [session_received, hes]; rfl) ((hfirst es).mpr hauth)
    obtain ⟨rfl, hlast⟩ := append_inj' heq rfl
    injection hlast with hframe
    injection hframe with _ hsub _
    exact ⟨id, hsub, hsent⟩
  · intro h es hes hauth
    rw [session_received] at hes
    obtain ⟨before, hbefore, rfl⟩ := Option.map_eq_some_iff.mp hes
    obtain ⟨id, rfl, hsent⟩ := h before hbefore ((hfirst before).mp hauth)
    cases content with
    | none => exact absurd haccepted (by decide)
    | some content => exact ⟨before, id, content, rfl, haccepted, hsent⟩

/-- What a step has to meet: an accepted OK that comes in while the handshake is pending,
in a session opened with AUTH, is for the AUTH event of that session. -/
def OkIsForAuth (relay : Relay) (input : RelayEnv × RelayAction) : Prop :=
  match input.2 with
  | .incoming text => relay.conn.authState = .pending →
      ∀ sub content, parseIncomingRelayText text = some ("OK", sub, content) →
        acceptedContent (content.getD "") = true →
        ∀ es, session relay.conn.log = some es → AuthFirst es →
          ∃ id, sub = some id ∧ AuthEventSent es id
  | _ => True

theorem noteReceived_log (conn : RelayConnection) (kind : String) (sub content : Option String) :
    (conn.noteReceived kind sub content).log = conn.log ++ [.received kind sub content] := by
  cases sub with
  | none => rfl
  | some sub =>
    rw [noteReceived]
    split <;> rfl

theorem noteReceived_authState (conn : RelayConnection) (kind : String)
    (sub content : Option String) :
    (conn.noteReceived kind sub content).authState = conn.authState := by
  cases sub with
  | none => rfl
  | some sub =>
    rw [noteReceived]
    split <;> rfl

variable (env) in
theorem handleFirstResponse_spec {noted : RelayConnection} {kind : String} (ha : Answered conn)
    (hlog : noted.log = conn.log ++ [.received kind sub content])
    (hauth : noted.authState = conn.authState) :
    Answered (noted.handleFirstResponse env kind (content.getD "")) ∧
      (AuthSound (noted.handleFirstResponse env kind (content.getD "")).log ↔
        AuthSound conn.log ∧ (conn.authState = .pending → kind = "OK" →
          acceptedContent (content.getD "") = true →
          ∀ es, session conn.log = some es → AuthFirst es →
            ∃ id, sub = some id ∧ AuthEventSent es id)) := by
  have hsound : AuthSound noted.log ↔ AuthSound conn.log := by
    rw [hlog]
    exact authSound_append (by simp) conn.log
  rw [handleFirstResponse]
  split
  · -- the first answer
    rename_i hunknown
    rw [hauth] at hunknown
    have hnot : ∀ q : Prop, (conn.authState = .pending → q) ↔ True := by
      intro q
      rw [hunknown]
      simp
    rw [hnot, and_true]
    split
    · refine ⟨fun _ _ _ => by simp [requestAuthSignature, emit], ?_⟩
      rw [requestAuthSignature, emit, authSound_concat, ← hsound]
      simp
    · rename_i hkind
      have hspec := setAuthenticated_spec env noted
      refine ⟨hspec.1, hspec.2.trans ?_⟩
      rw [hsound, hlog]
      refine and_iff_left (authOkAt_of_first (fun es hes => ?_) hkind)
      -- a session that has heard something knows its state
      by_contra hsome
      exact ha es hes hsome hunknown
  · -- the handshake is pending
    rename_i hpending
    rw [hauth] at hpending
    split
    · rename_i hok
      obtain ⟨rfl, haccepted⟩ := hok
      have hspec := setAuthenticated_spec env noted
      refine ⟨hspec.1, hspec.2.trans ?_⟩
      rw [hsound, hlog, authOkAt_received_iff haccepted]
      simp [hpending, haccepted]
    · rename_i hno
      refine ⟨fun _ _ _ => by rw [hauth, hpending]; simp, hsound.trans ?_⟩
      refine (and_iff_left fun _ hkind haccepted => ?_).symm
      exact absurd ⟨hkind, haccepted⟩ hno
  · rename_i hunknown hpending
    refine ⟨fun _ _ _ => hunknown, hsound.trans (and_iff_left fun h => ?_).symm⟩
    exact absurd (hauth.trans h) hpending

theorem incoming_spec (relay : Relay) (ha : Answered relay.conn) (text : String) :
    Answered (relay.conn.handleIncomingMessage env text) ∧
      (AuthSound (relay.conn.handleIncomingMessage env text).log ↔
        AuthSound relay.conn.log ∧ OkIsForAuth relay (env, .incoming text)) := by
  rw [handleIncomingMessage]
  cases hparse : parseIncomingRelayText text with
  | none =>
    have hkeep : KeepsAuth relay.conn relay.conn.confirmConnection :=
      keepsAuth_neutral (neutral_of_eq rfl rfl rfl rfl rfl rfl)
    refine ⟨hkeep.1 ha, hkeep.2.trans (iff_self_and.mpr fun _ _ sub content h => ?_)⟩
    rw [hparse] at h
    cases h
  | some parts =>
    obtain ⟨kind, sub, content⟩ := parts
    have hspec := handleFirstResponse_spec env ha
      (noteReceived_log relay.conn.confirmConnection kind sub content)
      (noteReceived_authState relay.conn.confirmConnection kind sub content)
    have hwrote : KeepsAuth _ (((relay.conn.confirmConnection.noteReceived kind sub
        content).handleFirstResponse env kind (content.getD "")).emit (.wrote (sub.getD "") text)) :=
      keepsAuth_emit _ trivial
    refine ⟨hwrote.1 hspec.1, hwrote.2.trans (hspec.2.trans (and_congr_right fun _ => ?_))⟩
    constructor
    · intro h hpending sub' content' hparse' haccepted
      rw [hparse] at hparse'
      cases hparse'
      exact h hpending rfl haccepted
    · rintro h hpending rfl haccepted
      exact h hpending sub content hparse haccepted

theorem keepsAuth_step {relay : Relay} {a : RelayAction} (hstep : ConnStep env relay a conn)
    (hother : ∀ text, a ≠ .incoming text) : KeepsAuth relay.conn conn := by
  cases hstep with
  | neutral h => exact keepsAuth_neutral h
  | sendRaw text => exact keepsAuth_enqueue relay.conn .caller text
  | closeSub sub =>
    rw [closeSub]
    split
    · have hclosed : KeepsAuth relay.conn ((relay.conn.forgetSub sub).emit (.subClosed sub)) :=
        keepsAuth_emit (relay.conn.forgetSub sub) trivial
      exact hclosed.trans (keepsAuth_enqueue _ _ _)
    · exact keepsAuth_neutral (.refl _)
  | close => exact keepsAuth_close relay.conn
  | signedAuth requestId event =>
    have hsigned : KeepsAuth relay.conn (relay.conn.emit (.signed requestId event)) :=
      keepsAuth_emit relay.conn trivial
    have hqueued : KeepsAuth _ ((relay.conn.emit (.signed requestId event)).enqueue env .auth
        (authFrame event)) := keepsAuth_enqueue _ _ _
    refine (hsigned.trans hqueued).trans ?_
    exact keepsAuth_of_plain [] (append_nil _).symm (by simp) (.inr (by simp [handleSignedAuth]))
  | incoming text => exact absurd rfl (hother text)
  | transportStatus status =>
    cases status with
    | failed => exact keepsAuth_loseTransport relay.conn .failed
    | closed => exact keepsAuth_loseTransport relay.conn .unknown
    | connected => exact keepsAuth_emit { relay.conn with status := .connected } trivial
  | @took frame rest _ hidle hqueue h =>
    have hpop : KeepsAuth relay.conn { relay.conn with queue := rest } :=
      keepsAuth_of_plain [] (append_nil _).symm (by simp) (.inl rfl)
    exact hpop.trans (keepsAuth_neutral h)
  | sent hsending => exact keepsAuth_sendRawInternal relay.conn _
  | opened ha => exact keepsAuth_connectDone relay.conn
  | wakeStarted hready h => exact (keepsAuth_close relay.conn).trans (keepsAuth_neutral h)
  | @woke frames hconnecting =>
    have hreplayed : KeepsAuth relay.conn (frames.foldl
        (fun c frame => c.enqueue env .wakeReplay frame) relay.conn.connectDone) :=
      (keepsAuth_connectDone relay.conn).trans (keepsAuth_enqueueAll .wakeReplay frames _)
    exact hreplayed.trans (keepsAuth_neutral (neutral_of_eq rfl rfl rfl rfl rfl rfl))

/-- **One step.**  A step keeps the handshake sound exactly when it meets the
condition. -/
theorem step_authSound (relay : Relay) (ha : Answered relay.conn) (input : RelayEnv × RelayAction) :
    Answered (relay.step input).conn ∧
      (AuthSound (relay.step input).conn.log ↔
        AuthSound relay.conn.log ∧ OkIsForAuth relay input) := by
  obtain ⟨env, a⟩ := input
  by_cases hin : ∃ text, a = .incoming text
  · obtain ⟨text, rfl⟩ := hin
    exact incoming_spec relay ha text
  · have hother : ∀ text, a ≠ .incoming text := fun text h => hin ⟨text, h⟩
    have hstep : ConnStep env relay a (relay.step (env, a)).conn := Relay.step_conn a
    have hkeep := keepsAuth_step hstep hother
    have hcond : OkIsForAuth relay (env, a) := by
      cases a <;> first | trivial | exact absurd rfl (hother _)
    exact ⟨hkeep.1 ha, hkeep.2.trans (and_iff_left hcond).symm⟩

/-- **NIP-42 soundness.**  In a run of a connection, every `set_authenticated` of a
session that the relay opened with AUTH is owed to the relay's yes to the AUTH event of
that session, exactly when every accepted OK that comes in while the handshake is
pending is for that event. -/
theorem authSound_iff (url : String) (inputs : List (RelayEnv × RelayAction)) :
    AuthSound (Run.exec Relay.step (Relay.new url) inputs).conn.log ↔
      Run.Along Relay.step OkIsForAuth (Relay.new url) inputs := by
  have hrun : ∀ (inputs : List (RelayEnv × RelayAction)) (relay : Relay), Answered relay.conn →
      (AuthSound (Run.exec Relay.step relay inputs).conn.log ↔
        AuthSound relay.conn.log ∧ Run.Along Relay.step OkIsForAuth relay inputs) := by
    intro inputs
    induction inputs with
    | nil => exact fun relay _ => (and_iff_left trivial).symm
    | cons input inputs ih =>
      intro relay ha
      obtain ⟨ha', hstep⟩ := step_authSound relay ha input
      rw [Run.exec_cons, ih _ ha', hstep, and_assoc]
      rfl
  have hnew : Answered (Relay.new url).conn := fun es hes => by cases hes
  rw [hrun inputs _ hnew]
  refine and_iff_right ((authSound_append ?_ []).mpr History.always_nil)
  rintro e he rfl
  simp at he

/-- The relay asks for AUTH while a published event is on its way; it accepts the event
before it has looked at the AUTH. -/
def publishWhilePending : List (RelayEnv × RelayAction) :=
  stepsAt 0
    [.initialStart, .initialDone true, .incoming "[\"AUTH\",\"c1\"]",
     .sendRaw "[\"EVENT\",\x7b\"id\":\"e1\"\x7d]", .take, .sendDone true,
     .signedAuth 9223372036854775809 "\x7b\"id\":\"a1\"\x7d", .take, .sendDone true,
     .incoming "[\"OK\",\"e1\",true,\"\"]"]

def publishSession : List RelayEffect :=
  [.statusWritten "connected", .received "AUTH" none (some "c1"),
   .signRequested 9223372036854775809 "c1" "wss://r" 0, .wrote "" "[\"AUTH\",\"c1\"]",
   .enqueued .caller "[\"EVENT\",\x7b\"id\":\"e1\"\x7d]",
   .sent "[\"EVENT\",\x7b\"id\":\"e1\"\x7d]", .wrote "e1" "[\"OK\",\"e1\",\"SENT\"]",
   .signed 9223372036854775809 "\x7b\"id\":\"a1\"\x7d",
   .enqueued .auth "[\"AUTH\",\x7b\"id\":\"a1\"\x7d]", .sent "[\"AUTH\",\x7b\"id\":\"a1\"\x7d]"]

/-- The yes to the published event authenticates the session. -/
theorem published_ok_authenticates :
    ¬ AuthSound (Run.exec Relay.step (Relay.new "wss://r") publishWhilePending).conn.log := by
  intro h
  have hlog : (Run.exec Relay.step (Relay.new "wss://r") publishWhilePending).conn.log =
      ([.statusWritten "connecting", .statusWritten "connecting", .opened] ++ (publishSession ++
        [.received "OK" (some "e1") (some "true,\"\"")])) ++
      .authenticated :: [.wrote "e1" "[\"OK\",\"e1\",true,\"\"]"] := by
    decide +kernel
  obtain ⟨before, id, content, heq, -, hsent⟩ := h _ _ _ hlog rfl
    (publishSession ++ [.received "OK" (some "e1") (some "true,\"\"")]) (by decide +kernel)
    (show firstKind _ = some "AUTH" by decide +kernel)
  obtain ⟨rfl, hlast⟩ := append_inj' heq rfl
  cases hlast
  -- the only event that was signed is another one
  obtain ⟨requestId, challenge, relay, createdAt, event, -, hsigned, -, hid⟩ := hsent
  have hevent : event = "\x7b\"id\":\"a1\"\x7d" := by
    simp only [publishSession, mem_cons, RelayEffect.signed.injEq, reduceCtorEq, false_or,
      not_mem_nil, or_false] at hsigned
    exact hsigned.2
  rw [hevent] at hid
  exact absurd hid (by decide +kernel)

end Nipworker
