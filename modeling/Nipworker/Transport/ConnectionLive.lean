/-
Active subscriptions on the current socket (`transport/connection.rs`).

`active_reqs` holds the REQs the client believes to be active.  When the queue is empty,
the drainer idle and the status Connected, each of them should have been sent on the
socket that is open now.  Only a wake replays them; a drainer that reconnects sends the
one frame it holds and forgets the rest.
-/
import Nipworker.Transport.ConnectionSteps

namespace Nipworker

open RelayConnection List

/-- What was sent since the last connect, one effect later. -/
def sentSinceStep (sent : List String) : RelayEffect → List String
  | .opened => []
  | .sent text => text :: sent
  | _ => sent

/-- The frames sent since the most recent successful `transport.connect`. -/
def sentSince (log : List RelayEffect) : List String := log.foldl sentSinceStep []

/-- The frame is recorded in `active_reqs`. -/
def RelayConnection.Recorded (conn : RelayConnection) (text : String) : Prop :=
  ∃ sub texts, conn.activeReqs.lookup sub = some texts ∧ text ∈ texts

def Drainer.hand : Drainer → Option String
  | .notStarted | .idle => none
  | .sending frame _ _ | .connecting frame _ _ | .sleeping frame _ _ => some frame

/-- In a settled state, every recorded REQ was sent on the current socket. -/
def LiveReqs (relay : Relay) : Prop :=
  relay.conn.queue = [] → relay.drainer = .idle → relay.conn.status = .connected →
    ∀ text, relay.conn.Recorded text → text ∈ sentSince relay.conn.log

/-- Every recorded REQ was sent on the current socket or is on its way. -/
def Carried (hand : Option String) (conn : RelayConnection) : Prop :=
  ∀ text, conn.Recorded text → text ∈ sentSince conn.log ∨ text ∈ conn.queue ∨ hand = some text

/-! ### What loses nothing -/

/-- No REQ is recorded, and none of the queue or of what was sent is lost. -/
structure LosesNothing (conn conn' : RelayConnection) : Prop where
  recorded : ∀ text, conn'.Recorded text → conn.Recorded text
  queue : ∀ text ∈ conn.queue, text ∈ conn'.queue
  sent : sentSince conn'.log = sentSince conn.log

variable {env : RelayEnv} {hand : Option String} {conn conn' conn'' : RelayConnection}

theorem LosesNothing.trans (h : LosesNothing conn conn') (h' : LosesNothing conn' conn'') :
    LosesNothing conn conn'' :=
  ⟨fun t ht => h.recorded t (h'.recorded t ht), fun t ht => h'.queue t (h.queue t ht),
    h'.sent.trans h.sent⟩

theorem Carried.mono (hc : Carried hand conn) (h : LosesNothing conn conn') :
    Carried hand conn' := by
  intro text htext
  rw [h.sent]
  rcases hc text (h.recorded text htext) with hsent | hqueue | hhand
  · exact .inl hsent
  · exact .inr (.inl (h.queue text hqueue))
  · exact .inr (.inr hhand)

def RelayEffect.IsSilent : RelayEffect → Prop
  | .opened | .sent _ => False
  | _ => True

theorem RelayEffect.IsNeutral.isSilent {e : RelayEffect} (h : e.IsNeutral) : e.IsSilent := by
  cases e <;> trivial

theorem sentSince_concat (log : List RelayEffect) (e : RelayEffect) :
    sentSince (log ++ [e]) = sentSinceStep (sentSince log) e := by
  rw [sentSince, foldl_append]
  rfl

theorem sentSince_silent {added : List RelayEffect} (h : ∀ e ∈ added, e.IsSilent)
    (log : List RelayEffect) : sentSince (log ++ added) = sentSince log := by
  induction added generalizing log with
  | nil => rw [append_nil]
  | cons e added ih =>
    have he := h e mem_cons_self
    rw [append_cons, ih fun e' he' => h e' (mem_cons_of_mem e he'), sentSince_concat]
    cases e <;> first | rfl | exact he.elim

theorem losesNothing_of_silent (added : List RelayEffect) (hlog : conn'.log = conn.log ++ added)
    (hsilent : ∀ e ∈ added, e.IsSilent) (hactive : conn'.activeReqs = conn.activeReqs)
    (hqueue : conn'.queue = conn.queue) : LosesNothing conn conn' := by
  refine ⟨fun text htext => ?_, fun text htext => ?_, ?_⟩
  · obtain ⟨sub, texts, hlookup, hmem⟩ := htext
    exact ⟨sub, texts, hactive ▸ hlookup, hmem⟩
  · rw [hqueue]
    exact htext
  · rw [hlog, sentSince_silent hsilent]

theorem losesNothing_neutral (h : conn.Neutral conn') : LosesNothing conn conn' := by
  obtain ⟨added, hlog, hadded⟩ := h.log
  exact losesNothing_of_silent added hlog (fun e he => (hadded e he).isSilent) h.activeReqs h.queue

theorem losesNothing_emit (conn : RelayConnection) {e : RelayEffect} (he : e.IsSilent) :
    LosesNothing conn (conn.emit e) := by
  refine losesNothing_of_silent [e] rfl (fun e' he' => ?_) rfl rfl
  rw [List.mem_singleton.mp he']
  exact he

theorem losesNothing_enqueue (conn : RelayConnection) (source : FrameSource) (text : String) :
    LosesNothing conn (conn.enqueue env source text) := by
  rw [enqueue]
  split
  · exact ⟨fun _ => id, fun t ht => mem_append_left _ ht, sentSince_concat _ _⟩
  · exact losesNothing_neutral (.refl conn)

variable {text : String} {a : RelayAction} (source : FrameSource) (frames : List String)

theorem losesNothing_enqueueAll (conn : RelayConnection) :
    LosesNothing conn (frames.foldl (fun c frame => c.enqueue env source frame) conn) := by
  induction frames generalizing conn with
  | nil => exact losesNothing_neutral (.refl conn)
  | cons frame frames ih => exact (losesNothing_enqueue conn source frame).trans (ih _)

theorem losesNothing_forgetSub (conn : RelayConnection) (sub : String) :
    LosesNothing conn (conn.forgetSub sub) := by
  refine ⟨fun text htext => ?_, fun _ => id, rfl⟩
  obtain ⟨other, texts, hlookup, hmem⟩ := htext
  rw [forgetSub, Map.lookup_erase_ite] at hlookup
  split at hlookup
  · cases hlookup
  · exact ⟨other, texts, hlookup, hmem⟩

theorem losesNothing_close (conn : RelayConnection) : LosesNothing conn conn.close := by
  refine losesNothing_of_silent [.disconnected, .statusWritten "close"] ?_ ?_ rfl rfl
  · simp [close, emit, clearBackoff]
  · simp [RelayEffect.IsSilent]

theorem losesNothing_setAuthenticated (conn : RelayConnection) :
    LosesNothing conn (conn.setAuthenticated env) := by
  have hdone : LosesNothing conn
      ({ conn with authState := .authenticated, preAuthQueue := [] }.emit .authenticated) :=
    losesNothing_of_silent [.authenticated] rfl (by simp [RelayEffect.IsSilent]) rfl rfl
  rw [setAuthenticated]
  split
  · exact hdone.trans (losesNothing_enqueueAll .authReplay conn.preAuthQueue _)
  · exact hdone

theorem losesNothing_handleFirstResponse (conn : RelayConnection) (kind content : String) :
    LosesNothing conn (conn.handleFirstResponse env kind content) := by
  rw [handleFirstResponse]
  split
  · split
    · exact losesNothing_of_silent [.signRequested _ _ _ _] rfl (by simp [RelayEffect.IsSilent]) rfl rfl
    · exact losesNothing_setAuthenticated conn
  · split
    · exact losesNothing_setAuthenticated conn
    · exact losesNothing_neutral (.refl conn)
  · exact losesNothing_neutral (.refl conn)

theorem losesNothing_handleIncomingMessage (conn : RelayConnection) (text : String) :
    LosesNothing conn (conn.handleIncomingMessage env text) := by
  have hconfirmed : LosesNothing conn conn.confirmConnection :=
    losesNothing_neutral (neutral_of_eq rfl rfl rfl rfl rfl rfl)
  rw [handleIncomingMessage]
  cases parseIncomingRelayText text with
  | none => exact hconfirmed
  | some parts =>
    obtain ⟨kind, sub, content⟩ := parts
    have hnoted : LosesNothing conn.confirmConnection
        (conn.confirmConnection.noteReceived kind sub content) := by
      have hreceived : LosesNothing conn.confirmConnection
          (conn.confirmConnection.emit (.received kind sub content)) :=
        losesNothing_emit _ trivial
      cases sub with
      | none => exact hreceived
      | some sub =>
        rw [noteReceived]
        split
        · exact hreceived.trans (losesNothing_forgetSub _ sub)
        · exact hreceived
    have hfirst : LosesNothing (conn.confirmConnection.noteReceived kind sub content)
        ((conn.confirmConnection.noteReceived kind sub content).handleFirstResponse env kind
          (content.getD "")) :=
      losesNothing_handleFirstResponse _ kind (content.getD "")
    have hanswered := (hconfirmed.trans hnoted).trans hfirst
    refine hanswered.trans (losesNothing_emit _ ?_)
    trivial

theorem losesNothing_handleTransportStatus (conn : RelayConnection) (status : TransportStatus) :
    LosesNothing conn (conn.handleTransportStatus env status) := by
  have hlose : ∀ auth, LosesNothing conn (conn.loseTransport env auth) := by
    intro auth
    rw [loseTransport]
    split
    · exact losesNothing_neutral (.refl conn)
    · exact losesNothing_neutral (.refl conn)
    · exact losesNothing_neutral (.refl conn)
    · refine losesNothing_of_silent [.lost, .statusWritten "failed"] ?_ ?_ rfl rfl
      · simp [emit, scheduleReconnectBackoff]
      · simp [RelayEffect.IsSilent]
  cases status with
  | failed => exact hlose .failed
  | closed => exact hlose .unknown
  | connected =>
    exact losesNothing_of_silent [.statusWritten "connected"] rfl (by simp [RelayEffect.IsSilent]) rfl rfl

theorem losesNothing_closeSub (conn : RelayConnection) (sub : String) :
    LosesNothing conn (conn.closeSub env sub) := by
  rw [closeSub]
  split
  · have hclosed : LosesNothing (conn.forgetSub sub)
        ((conn.forgetSub sub).emit (.subClosed sub)) := losesNothing_emit _ trivial
    exact ((losesNothing_forgetSub conn sub).trans hclosed).trans (losesNothing_enqueue _ _ _)
  · exact losesNothing_neutral (.refl conn)

theorem losesNothing_handleSignedAuth (conn : RelayConnection) (requestId : ℕ) (event : String) :
    LosesNothing conn (conn.handleSignedAuth env requestId event) := by
  have hsigned : LosesNothing conn (conn.emit (.signed requestId event)) :=
    losesNothing_emit conn trivial
  have hqueued : LosesNothing conn ((conn.emit (.signed requestId event)).enqueue env .auth
      (authFrame event)) :=
    hsigned.trans (losesNothing_enqueue _ _ _)
  exact ⟨hqueued.recorded, hqueued.queue, hqueued.sent⟩

/-! ### Sending and connecting -/

theorem recorded_recordReq {sub other : String}
    (h : (conn.recordReq sub text).Recorded other) : conn.Recorded other ∨ other = text := by
  obtain ⟨id, texts, hlookup, hmem⟩ := h
  rw [recordReq, Map.lookup_insert_ite] at hlookup
  split at hlookup
  · cases hlookup
    have hkept : other ∈ (conn.activeReqs.lookup sub).getD [] ∨ other = text := by
      split at hmem
      · exact .inl hmem
      · simpa using hmem
    rcases hkept with hkept | hnew
    · cases hfound : conn.activeReqs.lookup sub with
      | none => simp [hfound] at hkept
      | some frames =>
        rw [hfound] at hkept
        exact .inl ⟨sub, frames, hfound, hkept⟩
    · exact .inr hnew
  · exact .inl ⟨id, texts, hlookup, hmem⟩

theorem carried_recordReq (sub : String) (hc : Carried hand conn)
    (htext : text ∈ sentSince conn.log) : Carried hand (conn.recordReq sub text) := by
  intro other hother
  rcases recorded_recordReq hother with hold | rfl
  · exact hc other hold
  · exact .inl htext

theorem losesNothing_shadowPreAuthReq (conn : RelayConnection) (text : String) :
    LosesNothing conn (conn.shadowPreAuthReq text) := by
  have hshadow : LosesNothing conn (if text ∈ conn.preAuthQueue then conn
      else { conn with preAuthQueue := conn.preAuthQueue ++ [text] }) := by
    split
    · exact losesNothing_neutral (.refl conn)
    · exact losesNothing_of_silent [] (by simp) (by simp) rfl rfl
  rw [shadowPreAuthReq]
  split
  · exact hshadow
  · exact hshadow
  · exact hshadow
  · exact losesNothing_neutral (.refl conn)

/-- A frame that was sent is not in the drainer's hand any more: it went out on the
current socket, which records no other. -/
theorem carried_sendRawInternal (hc : Carried (some text) conn) :
    Carried none (conn.sendRawInternal text) := by
  have hlog : sentSince (conn.confirmConnection.emit (.sent text)).log =
      text :: sentSince conn.log := sentSince_concat conn.log (.sent text)
  have hsent : Carried none (conn.confirmConnection.emit (.sent text)) := by
    intro other hother
    rw [hlog]
    rcases hc other hother with hold | hqueue | hhand
    · exact .inl (mem_cons_of_mem text hold)
    · exact .inr (.inl hqueue)
    · exact .inl (Option.some.inj hhand ▸ mem_cons_self)
  rw [sendRawInternal]
  dsimp only
  split
  · rename_i sub _
    have hclosed : LosesNothing (conn.confirmConnection.emit (.sent text))
        (if (conn.confirmConnection.emit (.sent text)).activeSubs.erase sub = ∅ then
          (conn.confirmConnection.emit (.sent text)).close
        else conn.confirmConnection.emit (.sent text)) := by
      split
      · exact losesNothing_close _
      · exact losesNothing_neutral (.refl _)
    refine hsent.mono ((hclosed.trans (losesNothing_forgetSub _ sub)).trans ?_)
    exact losesNothing_emit _ trivial
  · rename_i sub _
    have hshadow := hsent.mono (losesNothing_shadowPreAuthReq _ text)
    have hfresh : text ∈ sentSince
        ((conn.confirmConnection.emit (.sent text)).shadowPreAuthReq text).log := by
      rw [(losesNothing_shadowPreAuthReq _ text).sent, hlog]
      exact mem_cons_self
    refine (carried_recordReq sub hshadow hfresh).mono (losesNothing_emit _ ?_)
    trivial
  · refine hsent.mono (losesNothing_emit _ ?_)
    trivial
  · exact hsent

theorem queue_enqueueAll (conn : RelayConnection) :
    (frames.foldl (fun c frame => c.enqueue env source frame) conn).queue =
      conn.queue ++ frames.take (env.capacity - conn.queue.length) := by
  induction frames generalizing conn with
  | nil => simp
  | cons frame frames ih =>
    rw [foldl_cons, ih, enqueue]
    split
    · rename_i hroom
      have hroom' : env.capacity - conn.queue.length =
          env.capacity - (conn.queue.length + 1) + 1 := by omega
      rw [hroom', take_succ_cons]
      simp [emit]
    · rename_i hfull
      have hnone : env.capacity - conn.queue.length = 0 := by omega
      rw [hnone]
      simp

theorem activeReqs_enqueueAll (conn : RelayConnection) :
    (frames.foldl (fun c frame => c.enqueue env source frame) conn).activeReqs =
      conn.activeReqs := by
  induction frames generalizing conn with
  | nil => rfl
  | cons frame frames ih =>
    rw [foldl_cons, ih, enqueue]
    split
    · rfl
    · rfl

/-! ### The condition -/

def RetryStage.isLast (healthy : Bool) : RetryStage → Bool
  | .reconnect => false
  | .staged idx => (retryDelaysMs healthy).length ≤ idx + 1

def Relay.opens (relay : Relay) : RelayAction → Option (List String)
  | .initialDone true => if relay.initial = .connecting then some [] else none
  | .drainerConnectDone true =>
    match relay.drainer with
    | .connecting _ _ _ => some []
    | _ => none
  | .wakeDone true =>
    match relay.wakeTask with
    | .connecting frames => some frames
    | _ => none
  | _ => none

/-- The drainer gives a frame up at the step: the frame, and the queue behind it. -/
def Relay.drops (env : RelayEnv) (relay : Relay) : RelayAction → Option (String × List String)
  | .take =>
    match relay.drainer, relay.conn.queue with
    | .idle, frame :: rest =>
      if relay.conn.shouldDelayReconnect env then some (frame, rest) else none
    | _, _ => none
  | .sendDone false =>
    match relay.drainer with
    | .sending frame healthy (some stage) =>
      if stage.isLast healthy then some (frame, relay.conn.queue) else none
    | _ => none
  | .drainerConnectDone false =>
    match relay.drainer with
    | .connecting frame healthy stage =>
      if stage.isLast healthy then some (frame, relay.conn.queue) else none
    | _ => none
  | .awake =>
    match relay.drainer with
    | .sleeping frame healthy idx =>
      if RetryStage.isLast healthy (.staged idx) ∧ ¬(relay.conn.connectStart env).2 then
        some (frame, relay.conn.queue)
      else none
    | _ => none
  | _ => none

/-- A connect finds every recorded REQ in the queue, in the drainer's hand or among what
it replays, and a recorded REQ that the drainer gives up was sent on this socket or is
queued once more. -/
structure KeepsReqs (relay : Relay) (input : RelayEnv × RelayAction) : Prop where
  opened : ∀ frames, relay.opens input.2 = some frames → ∀ text, relay.conn.Recorded text →
    text ∈ relay.conn.queue ∨ relay.drainer.hand = some text ∨
      text ∈ frames.take (input.1.capacity - relay.conn.queue.length)
  dropped : ∀ frame rest, relay.drops input.1 input.2 = some (frame, rest) →
    relay.conn.Recorded frame → frame ∈ sentSince relay.conn.log ∨ frame ∈ rest

/-! ### What the drainer holds -/

/-- The frame stays in the drainer's hand, or it is given up. -/
def KeepsHand (frame : String) (last : Bool) (relay : Relay) : Prop :=
  relay.drainer.hand = some frame ∨ last = true ∧ relay.drainer.hand = none

variable {relay : Relay}

variable (env relay) in
theorem keepsHand_retryFrom (frame : String) (healthy : Bool) (idx : ℕ) :
    KeepsHand frame ((retryDelaysMs healthy).length ≤ idx : Bool)
      (relay.retryFrom env frame healthy idx) := by
  rw [Relay.retryFrom]
  split
  · exact .inl rfl
  · rename_i hidx
    exact .inr ⟨decide_eq_true (by omega), rfl⟩

variable (env relay) in
theorem keepsHand_afterFailure (frame : String) (healthy : Bool) (stage : RetryStage) :
    KeepsHand frame (stage.isLast healthy) (relay.afterFailure env frame healthy stage) := by
  cases stage with
  | reconnect =>
    -- there is always a first staged retry
    have hfirst : ((retryDelaysMs healthy).length ≤ 0 : Bool) = false := by
      cases healthy <;> rfl
    rw [RetryStage.isLast, ← hfirst]
    exact keepsHand_retryFrom env relay frame healthy 0
  | staged idx => exact keepsHand_retryFrom env relay frame healthy (idx + 1)

variable (env relay) in
theorem keepsHand_drainerConnect (frame : String) (healthy : Bool) (stage : RetryStage) :
    KeepsHand frame (stage.isLast healthy && !(relay.conn.connectStart env).2)
      (relay.drainerConnect env frame healthy stage) := by
  rw [Relay.drainerConnect]
  split
  · exact .inl rfl
  · rename_i hstart
    rw [Bool.eq_false_of_not_eq_true hstart, Bool.not_false, Bool.and_true]
    exact keepsHand_afterFailure env _ frame healthy stage

/-- A step that neither takes nor sends a frame, nor ends a connect well. -/
def RelayAction.IsPlain : RelayAction → Prop
  | .take | .sendDone true | .initialDone true | .drainerConnectDone true | .wakeDone true => False
  | _ => True

variable (env relay) in
theorem hand_step (ha : a.IsPlain) :
    (relay.step (env, a)).drainer.hand = relay.drainer.hand ∨
      ∃ frame, relay.drainer.hand = some frame ∧
        relay.drops env a = some (frame, relay.conn.queue) ∧
        (relay.step (env, a)).drainer.hand = none := by
  cases a with
  | wake =>
    left
    show (relay.wake env).drainer.hand = _
    rw [Relay.wake]
    split
    · rfl
    · split
      · rfl
      · rfl
  | initialStart =>
    left
    show (relay.initialStart env).drainer.hand = _
    rw [Relay.initialStart]
    split
    · dsimp only
      split
      · rfl
      · rfl
    · rfl
  | initialDone ok =>
    cases ok with
    | true => exact ha.elim
    | false =>
      left
      show (relay.initialDone env false).drainer.hand = _
      rw [Relay.initialDone]
      split
      · rfl
      · rfl
  | wakeStart =>
    left
    show (relay.wakeStart env).drainer.hand = _
    rw [Relay.wakeStart]
    split
    · dsimp only
      split
      · rfl
      · rfl
    · rfl
  | wakeDone ok =>
    cases ok with
    | true => exact ha.elim
    | false =>
      left
      show (relay.wakeDone env false).drainer.hand = _
      rw [Relay.wakeDone]
      split
      · rfl
      · rfl
  | take => exact ha.elim
  | sendDone ok =>
    cases ok with
    | true => exact ha.elim
    | false =>
      show (relay.sendDone env false).drainer.hand = _ ∨ ∃ frame, _ ∧ relay.drops env (.sendDone false) = _ ∧
        (relay.sendDone env false).drainer.hand = none
      rw [Relay.sendDone, Relay.drops]
      split
      · rename_i frame healthy stage hsending
        rw [if_neg Bool.false_ne_true, hsending]
        cases stage with
        | none =>
          rcases keepsHand_drainerConnect env relay frame healthy .reconnect with
            hkept | ⟨hlast, -⟩
          · exact .inl hkept
          · cases hlast
        | some stage =>
          rcases keepsHand_afterFailure env relay frame healthy stage with
            hkept | ⟨hlast, hgone⟩
          · exact .inl hkept
          · exact .inr ⟨frame, rfl, if_pos hlast, hgone⟩
      · exact .inl rfl
  | drainerConnectDone ok =>
    cases ok with
    | true => exact ha.elim
    | false =>
      show (relay.drainerConnectDone env false).drainer.hand = _ ∨ ∃ frame, _ ∧
        relay.drops env (.drainerConnectDone false) = _ ∧
        (relay.drainerConnectDone env false).drainer.hand = none
      rw [Relay.drainerConnectDone, Relay.drops]
      split
      · rename_i frame healthy stage hconnecting
        rw [if_neg Bool.false_ne_true, hconnecting]
        rcases keepsHand_afterFailure env { relay with conn := relay.conn.connectFailed env }
          frame healthy stage with
          hkept | ⟨hlast, hgone⟩
        · exact .inl hkept
        · exact .inr ⟨frame, rfl, if_pos hlast, hgone⟩
      · exact .inl rfl
  | awake =>
    show (relay.awake env).drainer.hand = _ ∨ ∃ frame, _ ∧ relay.drops env .awake = _ ∧
      (relay.awake env).drainer.hand = none
    rw [Relay.awake, Relay.drops]
    split
    · rename_i frame healthy idx hsleeping
      rw [hsleeping]
      rcases keepsHand_drainerConnect env relay frame healthy (.staged idx) with
        hkept | ⟨hlast, hgone⟩
      · exact .inl hkept
      · rw [Bool.and_eq_true, Bool.not_eq_true'] at hlast
        exact .inr ⟨frame, rfl, if_pos ⟨hlast.1, by simp [hlast.2]⟩, hgone⟩
    · exact .inl rfl
  | _ => exact .inl rfl

theorem losesNothing_step (ha : a.IsPlain) :
    LosesNothing relay.conn (relay.step (env, a)).conn := by
  have hstep : ConnStep env relay a (relay.step (env, a)).conn := Relay.step_conn a
  generalize (relay.step (env, a)).conn = conn' at hstep ⊢
  cases hstep with
  | neutral h => exact losesNothing_neutral h
  | sendRaw text => exact losesNothing_enqueue _ _ text
  | closeSub sub => exact losesNothing_closeSub _ sub
  | close => exact losesNothing_close _
  | signedAuth requestId event => exact losesNothing_handleSignedAuth _ requestId event
  | incoming text => exact losesNothing_handleIncomingMessage _ text
  | transportStatus status => exact losesNothing_handleTransportStatus _ status
  | took => exact ha.elim
  | sent => exact ha.elim
  | opened h =>
    rcases h with rfl | rfl
    · exact ha.elim
    · exact ha.elim
  | wakeStarted _ h => exact (losesNothing_close _).trans (losesNothing_neutral h)
  | woke => exact ha.elim

/-! ### Steps and runs -/

theorem carried_opens {frames : List String} (hopens : relay.opens a = some frames)
    (hk : KeepsReqs relay (env, a)) :
    Carried (relay.step (env, a)).drainer.hand (relay.step (env, a)).conn := by
  -- after a connect, the queue and the drainer's hand are all there is
  have hcarried : ∀ (relay' : Relay), relay'.drainer.hand = relay.drainer.hand →
      relay'.conn.activeReqs = relay.conn.activeReqs →
      relay'.conn.queue =
        relay.conn.queue ++ frames.take (env.capacity - relay.conn.queue.length) →
      Carried relay'.drainer.hand relay'.conn := by
    intro relay' hhand hactive hqueue text htext
    have hrecorded : relay.conn.Recorded text := by
      obtain ⟨sub, texts, hlookup, hmem⟩ := htext
      exact ⟨sub, texts, hactive ▸ hlookup, hmem⟩
    rw [hqueue, hhand]
    rcases hk.opened frames hopens text hrecorded with hold | hheld | hnew
    · exact .inr (.inl (mem_append_left _ hold))
    · exact .inr (.inr hheld)
    · exact .inr (.inl (mem_append_right _ hnew))
  have hhand : relay.connectDone.drainer.hand = relay.drainer.hand := by
    rw [Relay.connectDone]
    dsimp only
    split
    · rename_i hnew
      rw [hnew]
      rfl
    · rfl
  cases a with
  | initialDone ok =>
    cases ok with
    | false => cases hopens
    | true =>
      rw [Relay.opens] at hopens
      split at hopens
      · rename_i hconnecting
        cases hopens
        refine hcarried _ ?_ ?_ ?_
        all_goals simp only [Relay.step, Relay.initialDone, hconnecting, if_true]
        · exact hhand
        · rfl
        · simp [Relay.connectDone, RelayConnection.connectDone, emit]
      · cases hopens
  | drainerConnectDone ok =>
    cases ok with
    | false => cases hopens
    | true =>
      rw [Relay.opens] at hopens
      split at hopens
      · rename_i frame healthy stage hconnecting
        cases hopens
        refine hcarried _ ?_ ?_ ?_
        all_goals simp only [Relay.step, Relay.drainerConnectDone, hconnecting, if_true]
        · rfl
        · rfl
        · simp [Relay.connectDone, RelayConnection.connectDone, emit]
      · cases hopens
  | wakeDone ok =>
    cases ok with
    | false => cases hopens
    | true =>
      rw [Relay.opens] at hopens
      split at hopens
      · rename_i frames' hconnecting
        cases hopens
        refine hcarried _ ?_ ?_ ?_
        all_goals simp only [Relay.step, Relay.wakeDone, hconnecting, if_true]
        · exact hhand
        · exact activeReqs_enqueueAll .wakeReplay frames relay.conn.connectDone
        · exact queue_enqueueAll .wakeReplay frames relay.conn.connectDone
      · cases hopens
  | _ => cases hopens

theorem carried_take (hc : Carried relay.drainer.hand relay.conn)
    (hk : KeepsReqs relay (env, .take)) :
    Carried (relay.take env).drainer.hand (relay.take env).conn := by
  rw [Relay.take]
  split
  · rename_i frame rest hidle hqueue
    rw [hidle] at hc
    have hdrop := hk.dropped frame rest
    rw [Relay.drops, hidle, hqueue] at hdrop
    dsimp only at hdrop ⊢
    split
    · rename_i hdelay
      intro text htext
      have hlog : sentSince (relay.conn.log ++ [.dropped frame]) = sentSince relay.conn.log :=
        sentSince_concat _ _
      show text ∈ sentSince (relay.conn.log ++ [.dropped frame]) ∨ text ∈ rest ∨ _
      rw [hlog]
      rcases hc text htext with hsent | hqueued | hhand
      · exact .inl hsent
      · rw [hqueue] at hqueued
        rcases List.mem_cons.mp hqueued with rfl | hrest
        · rcases hdrop (if_pos hdelay) htext with hsent | hrest
          · exact .inl hsent
          · exact .inr (.inl hrest)
        · exact .inr (.inl hrest)
      · cases hhand
    · intro text htext
      rcases hc text htext with hsent | hqueued | hhand
      · exact .inl hsent
      · rw [hqueue] at hqueued
        rcases List.mem_cons.mp hqueued with rfl | hrest
        · exact .inr (.inr rfl)
        · exact .inr (.inl hrest)
      · cases hhand
  · exact hc

theorem carried_sent (hc : Carried relay.drainer.hand relay.conn) :
    Carried (relay.sendDone env true).drainer.hand (relay.sendDone env true).conn := by
  rw [Relay.sendDone]
  split
  · rename_i frame healthy stage hsending
    rw [hsending] at hc
    exact carried_sendRawInternal hc
  · exact hc

theorem carried_plain (ha : a.IsPlain)
    (hc : Carried relay.drainer.hand relay.conn) (hk : KeepsReqs relay (env, a)) :
    Carried (relay.step (env, a)).drainer.hand (relay.step (env, a)).conn := by
  refine Carried.mono ?_ (losesNothing_step ha)
  rcases hand_step env relay ha with hkept | ⟨frame, hheld, hdrops, hgone⟩
  · rw [hkept]
    exact hc
  · rw [hgone]
    intro text htext
    rcases hc text htext with hsent | hqueued | hhand
    · exact .inl hsent
    · exact .inr (.inl hqueued)
    · rw [hheld] at hhand
      cases hhand
      rcases hk.dropped frame _ hdrops htext with hsent | hqueued
      · exact .inl hsent
      · exact .inr (.inl hqueued)

theorem carried_step (a : RelayAction) (hc : Carried relay.drainer.hand relay.conn)
    (hk : KeepsReqs relay (env, a)) :
    Carried (relay.step (env, a)).drainer.hand (relay.step (env, a)).conn := by
  cases hopens : relay.opens a with
  | some frames => exact carried_opens hopens hk
  | none =>
    cases a with
    | take => exact carried_take hc hk
    | sendDone ok =>
      cases ok with
      | true => exact carried_sent hc
      | false => exact carried_plain trivial hc hk
    | initialDone ok =>
      cases ok with
      | true =>
        rw [Relay.opens] at hopens
        split at hopens
        · cases hopens
        · rename_i hidle
          have hsame : relay.step (env, .initialDone true) = relay := by
            show relay.initialDone env true = relay
            rw [Relay.initialDone]
            split
            · exact absurd ‹_› hidle
            · rfl
          rw [hsame]
          exact hc
      | false => exact carried_plain trivial hc hk
    | drainerConnectDone ok =>
      cases ok with
      | true =>
        have hsame : relay.step (env, .drainerConnectDone true) = relay := by
          show relay.drainerConnectDone env true = relay
          rw [Relay.drainerConnectDone]
          rw [Relay.opens] at hopens
          split
          · rename_i hconnecting
            rw [hconnecting] at hopens
            cases hopens
          · rfl
        rw [hsame]
        exact hc
      | false => exact carried_plain trivial hc hk
    | wakeDone ok =>
      cases ok with
      | true =>
        have hsame : relay.step (env, .wakeDone true) = relay := by
          show relay.wakeDone env true = relay
          rw [Relay.wakeDone]
          rw [Relay.opens] at hopens
          split
          · rename_i hconnecting
            rw [hconnecting] at hopens
            cases hopens
          · rfl
        rw [hsame]
        exact hc
      | false => exact carried_plain trivial hc hk
    | _ => exact carried_plain trivial hc hk

def Relay.Carrying (relay : Relay) : Prop := Carried relay.drainer.hand relay.conn

theorem Relay.Carrying.liveReqs (h : relay.Carrying) : LiveReqs relay := by
  intro hqueue hidle _ text htext
  rcases h text htext with hsent | hqueued | hhand
  · exact hsent
  · rw [hqueue] at hqueued
    cases hqueued
  · rw [hidle] at hhand
    cases hhand

/-- **Active subscriptions are live.**  In every run whose connects find the recorded
REQs on their way again, a settled and connected state has sent all of them on its
socket. -/
theorem reqs_live (url : String) (inputs : List (RelayEnv × RelayAction))
    (hkeeps : Run.Along Relay.step KeepsReqs (.new url) inputs) :
    LiveReqs (Run.exec Relay.step (.new url) inputs) := by
  have hnew : (Relay.new url).Carrying := by
    rintro text ⟨sub, texts, hlookup, -⟩
    cases hlookup
  have hkeep : ∀ relay input, Relay.Carrying relay → KeepsReqs relay input →
      Relay.Carrying (relay.step input) :=
    fun relay input hc hk => carried_step input.2 hc hk
  exact (Run.Along.exec hkeep hnew hkeeps).liveReqs

theorem keepsReqs_of_none {input : RelayEnv × RelayAction} (hopens : relay.opens input.2 = none)
    (hdrops : relay.drops input.1 input.2 = none) : KeepsReqs relay input := by
  refine ⟨fun frames h => ?_, fun frame rest h => ?_⟩
  · rw [hopens] at h
    cases h
  · rw [hdrops] at h
    cases h

def RelayConnection.recordedFrames (conn : RelayConnection) : List String :=
  conn.activeReqs.entries.flatMap fun entry => entry.2

theorem RelayConnection.Recorded.mem (h : conn.Recorded text) : text ∈ conn.recordedFrames := by
  obtain ⟨sub, texts, hlookup, hmem⟩ := h
  exact List.mem_flatMap.mpr ⟨⟨sub, texts⟩, AList.mem_lookup_iff.mp hlookup, hmem⟩

theorem keepsReqs_of_replayed {input : RelayEnv × RelayAction} {frames : List String}
    (hopens : relay.opens input.2 = some frames) (hdrops : relay.drops input.1 input.2 = none)
    (hmem : ∀ text ∈ relay.conn.recordedFrames,
      text ∈ frames.take (input.1.capacity - relay.conn.queue.length)) :
    KeepsReqs relay input := by
  refine ⟨fun frames' h text htext => ?_, fun frame rest h => ?_⟩
  · cases hopens.symm.trans h
    exact .inr (.inr (hmem text htext.mem))
  · rw [hdrops] at h
    cases h

/-- A subscription is open, and a wake replaces the socket. -/
def wokenAndSettled : List (RelayEnv × RelayAction) :=
  stepsAt 0
    [.initialStart, .initialDone true, .sendRaw "[\"REQ\",\"s1\",\x7b\x7d]", .take, .sendDone true,
     .wake, .wakeStart, .wakeDone true, .take, .sendDone true]

/-- The wake has brought the subscription to the new socket. -/
theorem reqs_live_woken :
    (Run.exec Relay.step (Relay.new "wss://r") wokenAndSettled).conn.status = .connected ∧
      (Run.exec Relay.step (Relay.new "wss://r") wokenAndSettled).conn.recordedFrames =
        ["[\"REQ\",\"s1\",\x7b\x7d]"] ∧
      LiveReqs (Run.exec Relay.step (Relay.new "wss://r") wokenAndSettled) := by
  refine ⟨by decide +kernel, by decide +kernel, reqs_live "wss://r" wokenAndSettled ?_⟩
  refine ⟨keepsReqs_of_none rfl rfl, keepsReqs_of_replayed rfl rfl (by decide +kernel),
    keepsReqs_of_none rfl rfl, keepsReqs_of_none rfl rfl, keepsReqs_of_none rfl rfl,
    keepsReqs_of_none rfl rfl, keepsReqs_of_none rfl rfl,
    keepsReqs_of_replayed rfl rfl (by decide +kernel), keepsReqs_of_none rfl rfl,
    keepsReqs_of_none rfl rfl, trivial⟩

/-- The socket is lost with one subscription open; after the cooldown another one makes
the drainer reconnect. -/
def reconnectedByDrainer : List (RelayEnv × RelayAction) :=
  stepsAt 0
    [.initialStart, .initialDone true, .sendRaw "[\"REQ\",\"s1\",\x7b\x7d]", .take, .sendDone true,
     .transportStatus .closed] ++
  stepsAt 40000
    [.sendRaw "[\"REQ\",\"s2\",\x7b\x7d]", .take, .sendDone false, .drainerConnectDone true,
     .sendDone true]

/-- The first subscription is recorded as active, and silent. -/
theorem replaced_socket_silent :
    ¬ LiveReqs (Run.exec Relay.step (Relay.new "wss://r") reconnectedByDrainer) := by
  intro h
  have hsent := h (by decide +kernel) (by decide +kernel) (by decide +kernel)
    "[\"REQ\",\"s1\",\x7b\x7d]" ⟨"s1", ["[\"REQ\",\"s1\",\x7b\x7d]"], by decide +kernel, by decide⟩
  have hnot : "[\"REQ\",\"s1\",\x7b\x7d]" ∉ sentSince
      (Run.exec Relay.step (Relay.new "wss://r") reconnectedByDrainer).conn.log := by
    decide +kernel
  exact hnot hsent

end Nipworker
