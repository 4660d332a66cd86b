/-
Replays and closed subscriptions (`transport/connection.rs`).

A REQ that was sent is recorded in `active_reqs`, from which a wake replays, and, before
the relay has authenticated the connection, in the pre-auth queue, from which
`set_authenticated` replays.  The closing paths clear the first record only, and a wake
replays what it found before it waited for the socket.
-/
import Nipworker.Lib.History
import Nipworker.Transport.ConnectionSteps

namespace Nipworker

open RelayConnection List

/-- The REQs that are open, one effect later: a REQ that was sent is open until its
subscription is closed by a CLOSE that was sent, by `close_sub`, or by CLOSED. -/
def openReqsStep (reqs : List (String × String)) : RelayEffect → List (String × String)
  | .sent text =>
    match OutgoingFrame.ofText text with
    | .req sub => (sub, text) :: reqs
    | .close sub => reqs.filter fun r => r.1 ≠ sub
    | _ => reqs
  | .subClosed sub => reqs.filter fun r => r.1 ≠ sub
  | .received kind (some sub) _ =>
    if kind = "CLOSED" then reqs.filter fun r => r.1 ≠ sub else reqs
  | _ => reqs

/-- The REQs that were recorded and whose subscription has not been closed since. -/
def openReqs (log : List RelayEffect) : List (String × String) := log.foldl openReqsStep []

/-- The frame is a REQ of a subscription that was not closed since it was recorded. -/
def OpenIn (log : List RelayEffect) (text : String) : Prop :=
  ∃ sub, OutgoingFrame.ofText text = .req sub ∧ (sub, text) ∈ openReqs log

def FrameSource.IsReplay : FrameSource → Prop
  | .authReplay | .wakeReplay => True
  | _ => False

/-- Every frame a replay put into the queue was open at that moment. -/
def ReplaysOpen (log : List RelayEffect) : Prop :=
  History.Always (fun before e => ∀ source text, e = .enqueued source text → source.IsReplay →
    OpenIn before text) log

/-! ### Logs -/

/-- An effect that opens or closes no subscription and replays nothing. -/
def RelayEffect.IsQuiet : RelayEffect → Prop
  | .enqueued source _ => ¬ source.IsReplay
  | .sent text => ∀ sub, OutgoingFrame.ofText text ≠ .req sub ∧ OutgoingFrame.ofText text ≠ .close sub
  | .subClosed _ => False
  | .received kind sub _ => kind ≠ "CLOSED" ∨ sub = none
  | _ => True

theorem RelayEffect.IsQuiet.openReqsStep {e : RelayEffect} (h : e.IsQuiet)
    (reqs : List (String × String)) : openReqsStep reqs e = reqs := by
  cases e with
  | sent text =>
    rw [Nipworker.openReqsStep]
    split
    · exact absurd ‹_› (h _).1
    · exact absurd ‹_› (h _).2
    · rfl
  | subClosed sub => exact h.elim
  | received kind sub content =>
    cases sub with
    | none => rfl
    | some sub =>
      rw [Nipworker.openReqsStep]
      refine if_neg ?_
      rcases h with h | h
      · exact h
      · cases h
  | _ => rfl

theorem RelayEffect.IsNeutral.isQuiet {e : RelayEffect} (h : e.IsNeutral) : e.IsQuiet := by
  cases e <;> trivial

theorem openReqs_concat (log : List RelayEffect) (e : RelayEffect) :
    openReqs (log ++ [e]) = openReqsStep (openReqs log) e := by
  rw [openReqs, foldl_append]
  rfl

theorem openReqs_quiet {added : List RelayEffect} (h : ∀ e ∈ added, e.IsQuiet)
    (log : List RelayEffect) : openReqs (log ++ added) = openReqs log := by
  induction added generalizing log with
  | nil => rw [append_nil]
  | cons e added ih =>
    have he := h e mem_cons_self
    rw [append_cons, ih fun e' he' => h e' (mem_cons_of_mem e he'), openReqs_concat,
      he.openReqsStep]

theorem replaysOpen_quiet {added : List RelayEffect} (h : ∀ e ∈ added, e.IsQuiet)
    {log : List RelayEffect} (hlog : ReplaysOpen log) : ReplaysOpen (log ++ added) := by
  refine (History.always_append (fun e he before source text heq hreplay => ?_) log).mpr hlog
  have hquiet := h e he
  rw [heq] at hquiet
  exact absurd hreplay hquiet

/-! ### What waits to be replayed is open -/

/-- Everything recorded for a replay is open, and so was everything replayed; `frames`
are those of a wake. -/
structure Tracked (frames : List String) (conn : RelayConnection) : Prop where
  shadow : ∀ text ∈ conn.preAuthQueue, OpenIn conn.log text
  active : ∀ sub texts, conn.activeReqs.lookup sub = some texts → ∀ text ∈ texts,
    OutgoingFrame.ofText text = .req sub ∧ (sub, text) ∈ openReqs conn.log
  wake : ∀ text ∈ frames, OpenIn conn.log text
  replays : ReplaysOpen conn.log

variable {env : RelayEnv} {frames : List String} {conn conn' : RelayConnection}

theorem Tracked.quiet (h : Tracked frames conn) (added : List RelayEffect)
    (hlog : conn'.log = conn.log ++ added) (hquiet : ∀ e ∈ added, e.IsQuiet)
    (hshadow : ∀ text ∈ conn'.preAuthQueue, text ∈ conn.preAuthQueue)
    (hactive : conn'.activeReqs = conn.activeReqs) : Tracked frames conn' := by
  have hopen : openReqs conn'.log = openReqs conn.log := by rw [hlog, openReqs_quiet hquiet]
  refine ⟨fun text htext => ?_, fun sub texts hlookup text htext => ?_, fun text htext => ?_, ?_⟩
  · rw [OpenIn, hopen]
    exact h.shadow text (hshadow text htext)
  · rw [hopen]
    exact h.active sub texts (hactive ▸ hlookup) text htext
  · rw [OpenIn, hopen]
    exact h.wake text htext
  · rw [hlog]
    exact replaysOpen_quiet hquiet h.replays

theorem Tracked.neutral (h : Tracked frames conn) (hneutral : conn.Neutral conn') :
    Tracked frames conn' := by
  obtain ⟨added, hlog, hadded⟩ := hneutral.log
  refine h.quiet added hlog (fun e he => (hadded e he).isQuiet) ?_ hneutral.activeReqs
  rw [hneutral.preAuthQueue]
  exact fun _ => id

theorem Tracked.closing (h : Tracked frames conn) (sub : String) (e : RelayEffect)
    (added : List RelayEffect) (hlog : conn'.log = conn.log ++ e :: added)
    (he : ∀ reqs, openReqsStep reqs e = reqs.filter fun r => r.1 ≠ sub)
    (hreplay : ∀ source text, e ≠ .enqueued source text) (hquiet : ∀ e ∈ added, e.IsQuiet)
    (hshadow : ∀ text ∈ conn'.preAuthQueue,
      text ∈ conn.preAuthQueue ∧ OutgoingFrame.ofText text ≠ .req sub)
    (hactive : conn'.activeReqs = conn.activeReqs.erase sub)
    (hwake : ∀ text ∈ frames, OutgoingFrame.ofText text ≠ .req sub) : Tracked frames conn' := by
  have hopen : openReqs conn'.log = (openReqs conn.log).filter fun r => r.1 ≠ sub := by
    rw [hlog, append_cons, openReqs_quiet hquiet, openReqs_concat, he]
  -- a REQ of another subscription stays open
  have hstays : ∀ text, OpenIn conn.log text → OutgoingFrame.ofText text ≠ .req sub →
      OpenIn conn'.log text := by
    rintro text ⟨other, hreq, hmem⟩ hne
    refine ⟨other, hreq, ?_⟩
    rw [hopen, mem_filter]
    refine ⟨hmem, decide_eq_true ?_⟩
    rintro rfl
    exact hne hreq
  refine ⟨fun text htext => ?_, fun other texts hlookup text htext => ?_, fun text htext => ?_, ?_⟩
  · exact hstays text (h.shadow text (hshadow text htext).1) (hshadow text htext).2
  · rw [hactive, Map.lookup_erase_ite] at hlookup
    split at hlookup
    · cases hlookup
    · rename_i hne
      obtain ⟨hreq, hmem⟩ := h.active other texts hlookup text htext
      refine ⟨hreq, ?_⟩
      rw [hopen, mem_filter]
      exact ⟨hmem, decide_eq_true hne⟩
  · exact hstays text (h.wake text htext) (hwake text htext)
  · rw [hlog, append_cons]
    refine replaysOpen_quiet hquiet (History.always_concat.mpr ⟨h.replays, ?_⟩)
    intro source text heq
    exact absurd heq (hreplay source text)

theorem Tracked.enqueue (h : Tracked frames conn) (source : FrameSource) (text : String)
    (hopen : source.IsReplay → OpenIn conn.log text) :
    Tracked frames (conn.enqueue env source text) := by
  rw [RelayConnection.enqueue]
  split
  · have hsame : openReqs (conn.log ++ [.enqueued source text]) = openReqs conn.log :=
      openReqs_concat _ _
    refine ⟨fun t ht => ?_, fun sub texts hlookup t ht => ?_, fun t ht => ?_, ?_⟩
    · show ∃ sub, _ ∧ _ ∈ openReqs (conn.log ++ [.enqueued source text])
      rw [hsame]
      exact h.shadow t ht
    · show _ ∧ _ ∈ openReqs (conn.log ++ [.enqueued source text])
      rw [hsame]
      exact h.active sub texts hlookup t ht
    · show ∃ sub, _ ∧ _ ∈ openReqs (conn.log ++ [.enqueued source text])
      rw [hsame]
      exact h.wake t ht
    · refine History.always_concat.mpr ⟨h.replays, ?_⟩
      intro source' text' heq hreplay
      cases heq
      exact hopen hreplay
  · exact h

theorem openIn_enqueue (source : FrameSource) (text other : String) :
    OpenIn (conn.enqueue env source text).log other ↔ OpenIn conn.log other := by
  rw [RelayConnection.enqueue]
  split
  · show (∃ sub, _ ∧ _ ∈ openReqs (conn.log ++ [.enqueued source text])) ↔ _
    rw [show openReqs (conn.log ++ [.enqueued source text]) = openReqs conn.log from
      openReqs_concat _ _]
    rfl
  · rfl

theorem Tracked.enqueueAll (source : FrameSource) (texts : List String)
    (h : Tracked frames conn) (hopen : ∀ text ∈ texts, OpenIn conn.log text) :
    Tracked frames (texts.foldl (fun c text => c.enqueue env source text) conn) := by
  induction texts generalizing conn with
  | nil => exact h
  | cons text texts ih =>
    refine ih (h.enqueue source text fun _ => hopen text mem_cons_self) fun t ht => ?_
    exact (openIn_enqueue source text t).mpr (hopen t (mem_cons_of_mem text ht))

theorem Tracked.close (h : Tracked frames conn) : Tracked frames conn.close := by
  refine h.quiet [.disconnected, .statusWritten "close"] ?_ ?_ ?_ rfl
  · simp [RelayConnection.close, emit, clearBackoff]
  · simp [RelayEffect.IsQuiet]
  · intro text htext
    cases htext

theorem Tracked.connectDone (h : Tracked frames conn) : Tracked frames conn.connectDone := by
  refine h.quiet [.opened, .statusWritten "connected"] ?_ ?_ (fun _ => id) rfl
  · simp [RelayConnection.connectDone, emit]
  · simp [RelayEffect.IsQuiet]

/-! ### Sending, receiving, closing -/

variable {text : String} {relay : Relay} {input : RelayEnv × RelayAction}

theorem Tracked.sentClose (h : Tracked frames conn) {sub : String}
    (htext : OutgoingFrame.ofText text = .close sub)
    (hwake : ∀ t ∈ frames, OutgoingFrame.ofText t ≠ .req sub)
    (hshadow : (∀ t ∈ conn.preAuthQueue, OutgoingFrame.ofText t ≠ .req sub) ∨
      conn.activeSubs.erase sub = ∅) : Tracked frames (conn.sendRawInternal text) := by
  have hstep : ∀ reqs, openReqsStep reqs (.sent text) = reqs.filter fun r => r.1 ≠ sub := by
    intro reqs
    rw [openReqsStep, htext]
  rw [sendRawInternal, htext]
  dsimp only
  split
  · refine h.closing sub (.sent text)
      [.disconnected, .statusWritten "close", .wrote sub (noticeFrame sub "CLOSED")] ?_ hstep
      (fun _ _ h => by cases h) (by simp [RelayEffect.IsQuiet]) ?_ rfl hwake
    · simp [forgetSub, RelayConnection.close, emit, clearBackoff, confirmConnection]
    · intro t ht
      cases ht
  · rename_i hmore
    refine h.closing sub (.sent text) [.wrote sub (noticeFrame sub "CLOSED")] ?_ hstep
      (fun _ _ h => by cases h) (by simp [RelayEffect.IsQuiet]) ?_ rfl hwake
    · simp [forgetSub, emit, clearBackoff, confirmConnection]
    · intro t ht
      exact ⟨ht, hshadow.resolve_right hmore t ht⟩

theorem mem_shadowPreAuthReq (conn : RelayConnection) {other : String}
    (h : other ∈ (conn.shadowPreAuthReq text).preAuthQueue) :
    other ∈ conn.preAuthQueue ∨ other = text := by
  rw [shadowPreAuthReq] at h
  split at h <;> first | (split at h <;> simp_all) | exact .inl h

theorem shadowPreAuthReq_frame (conn : RelayConnection) (text : String) :
    (conn.shadowPreAuthReq text).log = conn.log ∧
      (conn.shadowPreAuthReq text).activeReqs = conn.activeReqs := by
  rw [shadowPreAuthReq]
  split <;> first | (split <;> exact ⟨rfl, rfl⟩) | exact ⟨rfl, rfl⟩

theorem Tracked.sentReq (h : Tracked frames conn) {sub : String}
    (htext : OutgoingFrame.ofText text = .req sub) :
    Tracked frames (conn.sendRawInternal text) := by
  obtain ⟨hslog, hsreqs⟩ := shadowPreAuthReq_frame (conn.confirmConnection.emit (.sent text)) text
  have hlog : (conn.sendRawInternal text).log =
      conn.log ++ [.sent text] ++ [.wrote sub (noticeFrame sub "SUBSCRIBED")] := by
    rw [sendRawInternal, htext]
    show (RelayConnection.shadowPreAuthReq _ text).log ++ _ = _
    rw [hslog]
    rfl
  have hopen : openReqs (conn.sendRawInternal text).log = (sub, text) :: openReqs conn.log := by
    rw [hlog, openReqs_quiet (by simp [RelayEffect.IsQuiet]), openReqs_concat, openReqsStep, htext]
  have hself : OpenIn (conn.sendRawInternal text).log text :=
    ⟨sub, htext, by rw [hopen]; exact mem_cons_self⟩
  have hstays : ∀ t, OpenIn conn.log t → OpenIn (conn.sendRawInternal text).log t := by
    rintro t ⟨other, hreq, hmem⟩
    exact ⟨other, hreq, by rw [hopen]; exact mem_cons_of_mem _ hmem⟩
  refine ⟨fun t ht => ?_, fun other texts hlookup t ht => ?_, fun t ht => hstays t (h.wake t ht), ?_⟩
  · rw [sendRawInternal, htext] at ht
    rcases mem_shadowPreAuthReq (conn.confirmConnection.emit (.sent text)) ht with ht | rfl
    · exact hstays t (h.shadow t ht)
    · exact hself
  · rw [hopen]
    have hreqs : (conn.sendRawInternal text).activeReqs = conn.activeReqs.insert sub
        (if text ∈ (conn.activeReqs.lookup sub).getD [] then (conn.activeReqs.lookup sub).getD []
          else (conn.activeReqs.lookup sub).getD [] ++ [text]) := by
      rw [sendRawInternal, htext]
      show AList.insert sub _ (RelayConnection.shadowPreAuthReq _ text).activeReqs = _
      rw [hsreqs]
      rfl
    rw [hreqs, Map.lookup_insert_ite] at hlookup
    split at hlookup
    · rename_i heq
      subst heq
      -- the texts recorded before, and this one
      have hcases : t ∈ (conn.activeReqs.lookup other).getD [] ∨ t = text := by
        injection hlookup with hlookup
        rw [← hlookup] at ht
        split at ht
        · exact .inl ht
        · simpa using ht
      rcases hcases with hold | rfl
      · cases hbefore : conn.activeReqs.lookup other with
        | none =>
          rw [hbefore] at hold
          cases hold
        | some old =>
          rw [hbefore] at hold
          obtain ⟨hreq, hmem⟩ := h.active other old hbefore t hold
          exact ⟨hreq, mem_cons_of_mem _ hmem⟩
      · exact ⟨htext, mem_cons_self⟩
    · obtain ⟨hreq, hmem⟩ := h.active other texts hlookup t ht
      exact ⟨hreq, mem_cons_of_mem _ hmem⟩
  · rw [hlog]
    refine replaysOpen_quiet (by simp [RelayEffect.IsQuiet])
      (History.always_concat.mpr ⟨h.replays, fun _ _ heq => by cases heq⟩)

theorem Tracked.sentOther (h : Tracked frames conn)
    (hother : ∀ sub, OutgoingFrame.ofText text ≠ .req sub ∧ OutgoingFrame.ofText text ≠ .close sub) :
    Tracked frames (conn.sendRawInternal text) := by
  have hquiet : ∀ e ∈ [RelayEffect.sent text], e.IsQuiet := by
    intro e he
    rw [List.mem_singleton.mp he]
    exact hother
  rw [sendRawInternal]
  split
  · exact absurd ‹_› (hother _).2
  · exact absurd ‹_› (hother _).1
  · rename_i eventId _
    refine h.quiet [.sent text, .wrote eventId (noticeFrame eventId "SENT")] ?_ ?_ (fun _ => id) rfl
    · simp [emit, confirmConnection, clearBackoff]
    · intro e he
      rcases List.mem_cons.mp he with rfl | he
      · exact hother
      · rw [List.mem_singleton.mp he]
        trivial
  · exact h.quiet [.sent text] rfl hquiet (fun _ => id) rfl

theorem Tracked.noteReceived (h : Tracked frames conn) (kind : String) (sub content : Option String)
    (hclosed : kind = "CLOSED" → ∀ s, sub = some s →
      (∀ t ∈ frames, OutgoingFrame.ofText t ≠ .req s) ∧
        ∀ t ∈ conn.preAuthQueue, OutgoingFrame.ofText t ≠ .req s) :
    Tracked frames (conn.noteReceived kind sub content) := by
  have hother : kind ≠ "CLOSED" ∨ sub = none →
      Tracked frames (conn.emit (.received kind sub content)) := by
    intro hquiet
    refine h.quiet [.received kind sub content] rfl (fun e he => ?_) (fun _ => id) rfl
    rw [List.mem_singleton.mp he]
    exact hquiet
  cases sub with
  | none => exact hother (.inr rfl)
  | some s =>
    rw [RelayConnection.noteReceived]
    split
    · rename_i hkind
      obtain ⟨hwake, hshadow⟩ := hclosed hkind s rfl
      refine h.closing s (.received kind (some s) content) [] rfl (fun reqs => ?_)
        (fun _ _ h => by cases h) (by simp) (fun t ht => ⟨ht, hshadow t ht⟩) rfl hwake
      rw [openReqsStep, if_pos hkind]
    · rename_i hkind
      exact hother (.inl hkind)

theorem Tracked.setAuthenticated (h : Tracked frames conn) :
    Tracked frames (conn.setAuthenticated env) := by
  have hdone : Tracked frames
      ({ conn with authState := .authenticated, preAuthQueue := [] }.emit .authenticated) :=
    h.quiet [.authenticated] rfl (by simp [RelayEffect.IsQuiet]) (fun t ht => by cases ht) rfl
  rw [RelayConnection.setAuthenticated]
  split
  · refine hdone.enqueueAll .authReplay conn.preAuthQueue fun t ht => ?_
    obtain ⟨sub, hreq, hmem⟩ := h.shadow t ht
    refine ⟨sub, hreq, ?_⟩
    show (sub, t) ∈ openReqs (conn.log ++ [.authenticated])
    rw [openReqs_concat]
    exact hmem
  · exact hdone

theorem Tracked.handleFirstResponse (h : Tracked frames conn) (kind content : String) :
    Tracked frames (conn.handleFirstResponse env kind content) := by
  rw [RelayConnection.handleFirstResponse]
  split
  · split
    · refine h.quiet [.signRequested (conn.nextAuthId % authRequestIdMask + authRequestIdMask)
        (trimQuotes content) conn.url (env.now / 1000)] rfl ?_ (fun _ => id) rfl
      simp [RelayEffect.IsQuiet]
    · exact h.setAuthenticated
  · split
    · exact h.setAuthenticated
    · exact h
  · exact h

theorem Tracked.handleTransportStatus (h : Tracked frames conn) (status : TransportStatus) :
    Tracked frames (conn.handleTransportStatus env status) := by
  have hlose : ∀ auth, Tracked frames (conn.loseTransport env auth) := by
    intro auth
    rw [loseTransport]
    split
    · exact h
    · exact h
    · exact h
    · refine h.quiet [.lost, .statusWritten "failed"] ?_ ?_ (fun t ht => by cases ht) rfl
      · simp [emit, scheduleReconnectBackoff]
      · simp [RelayEffect.IsQuiet]
  cases status with
  | failed => exact hlose .failed
  | closed => exact hlose .unknown
  | connected =>
    exact h.quiet [.statusWritten "connected"] rfl (by simp [RelayEffect.IsQuiet]) (fun _ => id) rfl

/-! ### Runs -/

/-- The subscription a step closes: by a CLOSE that has been sent, by `close_sub`, or by
CLOSED. -/
def Relay.closedSub (relay : Relay) : RelayAction → Option String
  | .sendDone true =>
    match relay.drainer with
    | .sending frame _ _ =>
      match OutgoingFrame.ofText frame with
      | .close sub => some sub
      | _ => none
    | _ => none
  | .closeSub sub => if sub ∈ relay.conn.activeSubs then some sub else none
  | .incoming text =>
    match parseIncomingRelayText text with
    | some (kind, sub, _) => if kind = "CLOSED" then sub else none
    | none => none
  | _ => none

/-- When a step closes a subscription, no REQ of it is among the frames of a running
wake, and none is in the pre-auth queue, unless a CLOSE of the last subscription empties
that queue. -/
def ClosesCleanly (relay : Relay) (input : RelayEnv × RelayAction) : Prop :=
  ∀ sub, relay.closedSub input.2 = some sub →
    (∀ text ∈ relay.wakeTask.frames, OutgoingFrame.ofText text ≠ .req sub) ∧
    ((∀ text ∈ relay.conn.preAuthQueue, OutgoingFrame.ofText text ≠ .req sub) ∨
      (input.2 = .sendDone true ∧ relay.conn.activeSubs.erase sub = ∅))

theorem Tracked.conn_step {a : RelayAction}
    (h : Tracked relay.wakeTask.frames relay.conn) (hclean : ClosesCleanly relay (env, a))
    (hstep : ConnStep env relay a conn) : Tracked relay.wakeTask.frames conn := by
  cases hstep with
  | neutral hneutral => exact h.neutral hneutral
  | sendRaw text => exact h.enqueue .caller text fun hreplay => hreplay.elim
  | closeSub sub =>
    rw [closeSub]
    split
    · rename_i hmem
      obtain ⟨hwake, hshadow⟩ := hclean sub (if_pos hmem)
      have hshadow' := hshadow.resolve_right fun hsend => by cases hsend.1
      have hclosed : Tracked relay.wakeTask.frames
          ((relay.conn.forgetSub sub).emit (.subClosed sub)) :=
        h.closing sub (.subClosed sub) [] rfl (fun _ => rfl) (fun _ _ h => by cases h) (by simp)
          (fun t ht => ⟨ht, hshadow' t ht⟩) rfl hwake
      exact hclosed.enqueue .closeSub _ fun hreplay => hreplay.elim
    · exact h
  | close => exact h.close
  | signedAuth requestId event =>
    have hsigned : Tracked relay.wakeTask.frames (relay.conn.emit (.signed requestId event)) :=
      h.quiet [.signed requestId event] rfl (by simp [RelayEffect.IsQuiet]) (fun _ => id) rfl
    have hqueued : Tracked relay.wakeTask.frames ((relay.conn.emit (.signed requestId event)).enqueue
        env .auth (authFrame event)) := hsigned.enqueue .auth _ fun hreplay => hreplay.elim
    exact ⟨hqueued.shadow, hqueued.active, hqueued.wake, hqueued.replays⟩
  | incoming text =>
    have hconfirmed : Tracked relay.wakeTask.frames relay.conn.confirmConnection :=
      ⟨h.shadow, h.active, h.wake, h.replays⟩
    rw [handleIncomingMessage]
    cases hparse : parseIncomingRelayText text with
    | none => exact hconfirmed
    | some parts =>
      obtain ⟨kind, sub, content⟩ := parts
      have hnoted := hconfirmed.noteReceived kind sub content (by
        intro hkind s hsub
        have hclosed : relay.closedSub (.incoming text) = some s := by
          rw [Relay.closedSub, hparse]
          exact (if_pos hkind).trans hsub
        obtain ⟨hwake, hshadow⟩ := hclean s hclosed
        exact ⟨hwake, hshadow.resolve_right fun hsend => by cases hsend.1⟩)
      refine (hnoted.handleFirstResponse kind (content.getD "")).quiet
        [.wrote (sub.getD "") text] rfl ?_ (fun _ => id) rfl
      simp [RelayEffect.IsQuiet]
  | transportStatus status => exact h.handleTransportStatus status
  | @took frame rest _ hidle hqueue hneutral =>
    have hpop : Tracked relay.wakeTask.frames { relay.conn with queue := rest } :=
      ⟨h.shadow, h.active, h.wake, h.replays⟩
    exact hpop.neutral hneutral
  | @sent frame healthy stage hsending =>
    cases hframe : OutgoingFrame.ofText frame with
    | close sub =>
      have hclosed : relay.closedSub (.sendDone true) = some sub := by
        rw [Relay.closedSub, hsending]
        show (match OutgoingFrame.ofText frame with | .close sub => some sub | _ => none) = some sub
        rw [hframe]
      obtain ⟨hwake, hshadow⟩ := hclean sub hclosed
      exact h.sentClose hframe hwake (hshadow.imp_right And.right)
    | req sub => exact h.sentReq hframe
    | event eventId => exact h.sentOther (by simp [hframe])
    | other => exact h.sentOther (by simp [hframe])
  | opened ha => exact h.connectDone
  | wakeStarted hready hneutral => exact h.close.neutral hneutral
  | @woke frames hconnecting =>
    have hframes : relay.wakeTask.frames = frames := by rw [hconnecting]; rfl
    have hreplayed : Tracked relay.wakeTask.frames (frames.foldl
        (fun c text => c.enqueue env .wakeReplay text) relay.conn.connectDone) :=
      h.connectDone.enqueueAll .wakeReplay frames fun t ht =>
        h.connectDone.wake t (by rw [hframes]; exact ht)
    exact ⟨hreplayed.shadow, hreplayed.active, hreplayed.wake, hreplayed.replays⟩

theorem Tracked.openIn_of_active (h : Tracked frames conn)
    (htext : text ∈ conn.replayFrames env) : OpenIn conn.log text := by
  obtain ⟨sub, -, hmem⟩ := List.mem_flatMap.mp htext
  cases hlookup : conn.activeReqs.lookup sub with
  | none =>
    rw [hlookup] at hmem
    cases hmem
  | some texts =>
    rw [hlookup] at hmem
    obtain ⟨hreq, hopen⟩ := h.active sub texts hlookup text hmem
    exact ⟨sub, hreq, hopen⟩

/-- What waits to be replayed is open. -/
def ReplaysTracked (relay : Relay) : Prop := Tracked relay.wakeTask.frames relay.conn

/-- **One step.**  A step that closes cleanly keeps what waits to be replayed open. -/
theorem ReplaysTracked.step (h : ReplaysTracked relay) (hclean : ClosesCleanly relay input) :
    ReplaysTracked (relay.step input) := by
  obtain ⟨env, a⟩ := input
  have hconn : Tracked relay.wakeTask.frames (relay.step (env, a)).conn :=
    Tracked.conn_step h hclean (Relay.step_conn a)
  refine ⟨hconn.shadow, hconn.active, fun text htext => ?_, hconn.replays⟩
  rcases Relay.mem_wakeFrames_step a htext with hold | ⟨rfl, hactive⟩
  · exact hconn.wake text hold
  · -- calling a wake writes nothing
    have hlog : (relay.step (env, .wake)).conn.log = relay.conn.log := by
      show (relay.wake env).conn.log = relay.conn.log
      rw [Relay.wake]
      split
      · rfl
      · split <;> rfl
    rw [hlog]
    exact Tracked.openIn_of_active h hactive

theorem replaysTracked_new (url : String) : ReplaysTracked (Relay.new url) where
  shadow := fun _ h => (by cases h)
  active := fun _ _ h => (by cases h)
  wake := fun _ h => (by cases h)
  replays := replaysOpen_quiet (by simp [RelayEffect.IsQuiet]) History.always_nil

/-- **No replay reopens a closed subscription.**  In every run whose steps close
cleanly, every REQ that a replay put into the queue belongs to a subscription that was
not closed since the REQ was recorded. -/
theorem replays_open (url : String) (inputs : List (RelayEnv × RelayAction))
    (hclean : Run.Along Relay.step ClosesCleanly (Relay.new url) inputs) :
    ReplaysOpen (Run.exec Relay.step (Relay.new url) inputs).conn.log := by
  have htracked : ReplaysTracked (Run.exec Relay.step (Relay.new url) inputs) :=
    hclean.exec (fun _ _ h hstep => h.step hstep) (replaysTracked_new url)
  exact htracked.replays

theorem closesCleanly_of_none (h : relay.closedSub input.2 = none) : ClosesCleanly relay input := by
  intro sub hsub
  rw [h] at hsub
  cases hsub

theorem closesCleanly_of_nil
    (hwake : relay.wakeTask.frames = []) (hshadow : relay.conn.preAuthQueue = []) :
    ClosesCleanly relay input := by
  intro sub _
  rw [hwake, hshadow]
  exact ⟨by simp, .inl (by simp)⟩

/-- A subscription is woken, and closed when its REQ has been replayed. -/
def wokenThenClosed : List (RelayEnv × RelayAction) :=
  stepsAt 0
    [.initialStart, .initialDone true, .sendRaw "[\"REQ\",\"s1\",\x7b\x7d]", .take, .sendDone true,
     .wake, .wakeStart, .wakeDone true, .closeSub "s1"]

/-- The replay of this run is the one that is still open. -/
theorem replays_open_woken :
    RelayEffect.enqueued .wakeReplay "[\"REQ\",\"s1\",\x7b\x7d]" ∈
        (Run.exec Relay.step (Relay.new "wss://r") wokenThenClosed).conn.log ∧
      ReplaysOpen (Run.exec Relay.step (Relay.new "wss://r") wokenThenClosed).conn.log := by
  refine ⟨by decide, replays_open "wss://r" wokenThenClosed ?_⟩
  refine ⟨closesCleanly_of_none rfl, closesCleanly_of_none rfl, closesCleanly_of_none rfl,
    closesCleanly_of_none rfl, closesCleanly_of_none (by decide), closesCleanly_of_none rfl,
    closesCleanly_of_none rfl, closesCleanly_of_none rfl, closesCleanly_of_nil rfl rfl, trivial⟩

/-- Two subscriptions are opened before the relay asks for AUTH, and one is closed before
it has accepted it. -/
def closedWhilePending : List (RelayEnv × RelayAction) :=
  stepsAt 0
    [.initialStart, .initialDone true, .sendRaw "[\"REQ\",\"s1\",\x7b\x7d]", .take, .sendDone true,
     .sendRaw "[\"REQ\",\"s2\",\x7b\x7d]", .take, .sendDone true, .incoming "[\"AUTH\",\"c1\"]",
     .signedAuth 9223372036854775809 "\x7b\"id\":\"a1\"\x7d", .take, .sendDone true,
     .closeSub "s1", .take, .sendDone true, .incoming "[\"OK\",\"a1\",true,\"\"]"]

/-- The closed subscription is replayed with the other one. -/
theorem closed_sub_replayed :
    ¬ ReplaysOpen (Run.exec Relay.step (Relay.new "wss://r") closedWhilePending).conn.log := by
  intro h
  have hlog : (Run.exec Relay.step (Relay.new "wss://r") closedWhilePending).conn.log =
      (Run.exec Relay.step (Relay.new "wss://r") closedWhilePending).conn.log.take 22 ++
        .enqueued .authReplay "[\"REQ\",\"s1\",\x7b\x7d]" ::
        (Run.exec Relay.step (Relay.new "wss://r") closedWhilePending).conn.log.drop 23 := by
    decide
  obtain ⟨sub, -, hmem⟩ := h _ _ _ hlog _ _ rfl trivial
  have hopen : openReqs ((Run.exec Relay.step (Relay.new "wss://r")
      closedWhilePending).conn.log.take 22) = [("s2", "[\"REQ\",\"s2\",\x7b\x7d]")] := by
    decide
  rw [hopen, mem_singleton] at hmem
  exact absurd (Prod.mk.inj hmem).2 (by decide)

end Nipworker
