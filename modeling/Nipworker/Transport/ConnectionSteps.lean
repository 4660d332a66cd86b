/-
What a step does to a relay connection (`transport/connection.rs`).

Most steps of the tasks only move the tasks on: they change the status, the backoff and
what is written, and nothing a subscription or the authentication depends on.  This
module says once which steps do more.
-/
import Nipworker.Transport.Connection

namespace Nipworker

/-- An effect on which neither subscriptions nor the authentication depend. -/
def RelayEffect.IsNeutral : RelayEffect → Prop
  | .dropped _ | .wrote _ _ | .statusWritten _ => True
  | _ => False

namespace RelayConnection

/-- A change of the status, the backoff, and what is written. -/
structure Neutral (conn conn' : RelayConnection) : Prop where
  authState : conn'.authState = conn.authState
  preAuthQueue : conn'.preAuthQueue = conn.preAuthQueue
  activeSubs : conn'.activeSubs = conn.activeSubs
  activeReqs : conn'.activeReqs = conn.activeReqs
  queue : conn'.queue = conn.queue
  log : ∃ added, conn'.log = conn.log ++ added ∧ ∀ e ∈ added, e.IsNeutral

variable {env : RelayEnv} {conn conn' conn'' : RelayConnection}

theorem Neutral.refl (conn : RelayConnection) : conn.Neutral conn :=
  ⟨rfl, rfl, rfl, rfl, rfl, [], by simp⟩

theorem Neutral.trans (h : conn.Neutral conn') (h' : conn'.Neutral conn'') :
    conn.Neutral conn'' := by
  obtain ⟨added, hlog, hadded⟩ := h.log
  obtain ⟨more, hlog', hmore⟩ := h'.log
  refine ⟨h'.authState.trans h.authState, h'.preAuthQueue.trans h.preAuthQueue,
    h'.activeSubs.trans h.activeSubs, h'.activeReqs.trans h.activeReqs, h'.queue.trans h.queue,
    added ++ more, ?_, ?_⟩
  · rw [hlog', hlog, List.append_assoc]
  · intro e he
    rcases List.mem_append.mp he with he | he
    · exact hadded e he
    · exact hmore e he

theorem neutral_of_eq (hauth : conn'.authState = conn.authState)
    (hpre : conn'.preAuthQueue = conn.preAuthQueue) (hsubs : conn'.activeSubs = conn.activeSubs)
    (hreqs : conn'.activeReqs = conn.activeReqs) (hqueue : conn'.queue = conn.queue)
    (hlog : conn'.log = conn.log) : conn.Neutral conn' :=
  ⟨hauth, hpre, hsubs, hreqs, hqueue, [], by simp [hlog], by simp⟩

theorem Neutral.emit (h : conn.Neutral conn') {e : RelayEffect} (he : e.IsNeutral) :
    conn.Neutral (conn'.emit e) := by
  refine h.trans ⟨rfl, rfl, rfl, rfl, rfl, [e], rfl, ?_⟩
  intro e' he'
  rw [List.mem_singleton.mp he']
  exact he

variable (env conn) in
theorem neutral_connectStart : conn.Neutral (conn.connectStart env).1 := by
  rw [connectStart]
  split
  · exact .refl conn
  · refine Neutral.emit ?_ ?_
    · exact neutral_of_eq rfl rfl rfl rfl rfl rfl
    · trivial

variable (env conn) in
theorem neutral_connectFailed : conn.Neutral (conn.connectFailed env) := by
  have hstatus : conn.Neutral ({ conn with status := .failed }.emit (.statusWritten "failed")) := by
    refine Neutral.emit ?_ ?_
    · exact neutral_of_eq rfl rfl rfl rfl rfl rfl
    · trivial
  exact hstatus.trans (neutral_of_eq rfl rfl rfl rfl rfl rfl)

end RelayConnection

open RelayConnection

/-- Every step is neutral, or one of the calls. -/
inductive ConnStep (env : RelayEnv) (relay : Relay) : RelayAction → RelayConnection → Prop
  | neutral {a : RelayAction} {conn : RelayConnection} (h : relay.conn.Neutral conn) :
      ConnStep env relay a conn
  | sendRaw (text : String) : ConnStep env relay (.sendRaw text) (relay.conn.sendRaw env text)
  | closeSub (sub : String) : ConnStep env relay (.closeSub sub) (relay.conn.closeSub env sub)
  | close : ConnStep env relay .close relay.conn.close
  | signedAuth (requestId : ℕ) (event : String) :
      ConnStep env relay (.signedAuth requestId event)
        (relay.conn.handleSignedAuth env requestId event)
  | incoming (text : String) :
      ConnStep env relay (.incoming text) (relay.conn.handleIncomingMessage env text)
  | transportStatus (status : TransportStatus) :
      ConnStep env relay (.transportStatus status) (relay.conn.handleTransportStatus env status)
  | took {frame : String} {rest : List String} {conn : RelayConnection}
      (hidle : relay.drainer = .idle) (hqueue : relay.conn.queue = frame :: rest)
      (h : Neutral { relay.conn with queue := rest } conn) : ConnStep env relay .take conn
  | sent {frame : String} {healthy : Bool} {stage : Option RetryStage}
      (hsending : relay.drainer = .sending frame healthy stage) :
      ConnStep env relay (.sendDone true) (relay.conn.sendRawInternal frame)
  | opened {a : RelayAction} (ha : a = .initialDone true ∨ a = .drainerConnectDone true) :
      ConnStep env relay a relay.conn.connectDone
  | wakeStarted {frames : List String} {conn : RelayConnection}
      (hready : relay.wakeTask = .ready frames) (h : relay.conn.close.Neutral conn) :
      ConnStep env relay .wakeStart conn
  | woke {frames : List String} (hconnecting : relay.wakeTask = .connecting frames) :
      ConnStep env relay (.wakeDone true)
        { frames.foldl (fun c frame => c.enqueue env .wakeReplay frame) relay.conn.connectDone with
          wakeInFlight := false }

def WakeTask.frames : WakeTask → List String
  | .none => []
  | .ready frames | .connecting frames => frames

namespace Relay

variable {env : RelayEnv} {relay : Relay}

/-! ### The moves of the drainer are neutral -/

variable (frame : String)

theorem neutral_giveUp : relay.conn.Neutral (relay.giveUp env frame).conn := by
  have hdropped : relay.conn.Neutral (relay.conn.emit (.dropped frame)) :=
    (Neutral.refl relay.conn).emit (by trivial)
  rw [giveUp]
  dsimp only
  split
  · exact hdropped
  · exact hdropped.trans (neutral_of_eq rfl rfl rfl rfl rfl rfl)

theorem neutral_retryFrom (healthy : Bool) (idx : ℕ) :
    relay.conn.Neutral (relay.retryFrom env frame healthy idx).conn := by
  rw [retryFrom]
  split
  · exact neutral_of_eq rfl rfl rfl rfl rfl rfl
  · exact neutral_giveUp frame

theorem neutral_afterFailure (healthy : Bool) (stage : RetryStage) :
    relay.conn.Neutral (relay.afterFailure env frame healthy stage).conn := by
  cases stage with
  | reconnect => exact neutral_retryFrom frame healthy 0
  | staged idx => exact neutral_retryFrom frame healthy (idx + 1)

theorem neutral_drainerConnect (healthy : Bool) (stage : RetryStage) :
    relay.conn.Neutral (relay.drainerConnect env frame healthy stage).conn := by
  rw [drainerConnect]
  split
  · exact neutral_connectStart env _
  · have h : relay.conn.Neutral { relay with conn := (relay.conn.connectStart env).1 }.conn :=
      neutral_connectStart env relay.conn
    exact h.trans (neutral_afterFailure frame healthy stage)

/-! ### Every step -/

/-- **Inversion.**  Every step does one of the listed things to the connection. -/
theorem step_conn (a : RelayAction) : ConnStep env relay a (relay.step (env, a)).conn := by
  cases a with
  | sendRaw text => exact .sendRaw text
  | closeSub sub => exact .closeSub sub
  | close => exact .close
  | wake =>
    refine .neutral ?_
    show relay.conn.Neutral (relay.wake env).conn
    rw [wake]
    split
    · exact .refl _
    · split
      · exact .refl _
      · exact neutral_of_eq rfl rfl rfl rfl rfl rfl
  | signedAuth requestId event => exact .signedAuth requestId event
  | incoming text => exact .incoming text
  | transportStatus status => exact .transportStatus status
  | initialStart =>
    refine .neutral ?_
    show relay.conn.Neutral (relay.initialStart env).conn
    rw [initialStart]
    split
    · dsimp only
      split
      · exact neutral_connectStart env _
      · exact (neutral_connectStart env _).emit (by trivial)
    · exact .refl _
  | initialDone ok =>
    show ConnStep env relay (.initialDone ok) (relay.initialDone env ok).conn
    rw [initialDone]
    split
    · cases ok with
      | true => exact .opened (.inl rfl)
      | false => exact .neutral ((neutral_connectFailed env _).emit (by trivial))
    · exact .neutral (.refl _)
  | wakeStart =>
    show ConnStep env relay .wakeStart (relay.wakeStart env).conn
    rw [wakeStart]
    split
    · rename_i frames hready
      have hclosed : relay.conn.close.Neutral relay.conn.close.clearBackoff :=
        neutral_of_eq rfl rfl rfl rfl rfl rfl
      refine .wakeStarted hready ?_
      dsimp only
      split
      · exact hclosed.trans (neutral_connectStart env _)
      · exact hclosed.trans ((neutral_connectStart env _).trans (neutral_of_eq rfl rfl rfl rfl rfl rfl))
    · exact .neutral (.refl _)
  | wakeDone ok =>
    show ConnStep env relay (.wakeDone ok) (relay.wakeDone env ok).conn
    rw [wakeDone]
    split
    · rename_i frames hconnecting
      cases ok with
      | true => exact .woke hconnecting
      | false =>
        exact .neutral ((neutral_connectFailed env _).trans (neutral_of_eq rfl rfl rfl rfl rfl rfl))
    · exact .neutral (.refl _)
  | take =>
    show ConnStep env relay .take (relay.take env).conn
    rw [take]
    split
    · rename_i frame rest hidle hqueue
      refine .took hidle hqueue ?_
      dsimp only
      split
      · refine Neutral.emit ?_ ?_
        · exact neutral_of_eq rfl rfl rfl rfl rfl rfl
        · trivial
      · exact neutral_of_eq rfl rfl rfl rfl rfl rfl
    · exact .neutral (.refl _)
  | sendDone ok =>
    show ConnStep env relay (.sendDone ok) (relay.sendDone env ok).conn
    rw [sendDone]
    split
    · rename_i frame healthy stage hsending
      cases ok with
      | true => exact .sent hsending
      | false =>
        refine .neutral ?_
        rw [if_neg Bool.false_ne_true]
        cases stage with
        | none => exact neutral_drainerConnect frame healthy .reconnect
        | some stage => exact neutral_afterFailure frame healthy stage
    · exact .neutral (.refl _)
  | drainerConnectDone ok =>
    show ConnStep env relay (.drainerConnectDone ok) (relay.drainerConnectDone env ok).conn
    rw [drainerConnectDone]
    split
    · rename_i frame healthy stage hconnecting
      cases ok with
      | true => exact .opened (.inr rfl)
      | false =>
        have h : relay.conn.Neutral { relay with conn := relay.conn.connectFailed env }.conn :=
          neutral_connectFailed env relay.conn
        exact .neutral (h.trans (neutral_afterFailure frame healthy stage))
    · exact .neutral (.refl _)
  | awake =>
    refine .neutral ?_
    show relay.conn.Neutral (relay.awake env).conn
    rw [awake]
    split
    · rename_i frame healthy idx hsleeping
      exact neutral_drainerConnect frame healthy (.staged idx)
    · exact .refl _

/-- The frames of a wake are those that were active when it was called. -/
theorem mem_wakeFrames_step (a : RelayAction) {text : String}
    (h : text ∈ (relay.step (env, a)).wakeTask.frames) :
    text ∈ relay.wakeTask.frames ∨ (a = .wake ∧ text ∈ relay.conn.replayFrames env) := by
  have hretry : ∀ (r : Relay) frame healthy idx,
      (r.retryFrom env frame healthy idx).wakeTask = r.wakeTask := by
    intro r frame healthy idx
    rw [retryFrom]
    split
    · rfl
    · rfl
  have hfailure : ∀ (r : Relay) frame healthy stage,
      (r.afterFailure env frame healthy stage).wakeTask = r.wakeTask := by
    intro r frame healthy stage
    cases stage with
    | reconnect => exact hretry r frame healthy 0
    | staged idx => exact hretry r frame healthy (idx + 1)
  have hconnect : ∀ (r : Relay) frame healthy stage,
      (r.drainerConnect env frame healthy stage).wakeTask = r.wakeTask := by
    intro r frame healthy stage
    rw [drainerConnect]
    split
    · rfl
    · exact hfailure _ frame healthy stage
  cases a with
  | wake =>
    have h' : text ∈ (relay.wake env).wakeTask.frames := h
    rw [wake] at h'
    split at h'
    · exact .inl h'
    · split at h'
      · exact .inl h'
      · exact .inr ⟨rfl, h'⟩
  | initialStart =>
    have h' : text ∈ (relay.initialStart env).wakeTask.frames := h
    rw [initialStart] at h'
    split at h'
    · dsimp only at h'
      split at h' <;> exact .inl h'
    · exact .inl h'
  | initialDone ok =>
    have h' : text ∈ (relay.initialDone env ok).wakeTask.frames := h
    rw [initialDone] at h'
    split at h'
    · split at h' <;> exact .inl h'
    · exact .inl h'
  | wakeStart =>
    have h' : text ∈ (relay.wakeStart env).wakeTask.frames := h
    rw [wakeStart] at h'
    split at h'
    · rename_i frames hready
      rw [hready]
      dsimp only at h'
      split at h'
      · exact .inl h'
      · cases h'
    · exact .inl h'
  | wakeDone ok =>
    have h' : text ∈ (relay.wakeDone env ok).wakeTask.frames := h
    rw [wakeDone] at h'
    split at h'
    · split at h' <;> cases h'
    · exact .inl h'
  | take =>
    have h' : text ∈ (relay.take env).wakeTask.frames := h
    rw [take] at h'
    split at h'
    · dsimp only at h'
      split at h' <;> exact .inl h'
    · exact .inl h'
  | sendDone ok =>
    have h' : text ∈ (relay.sendDone env ok).wakeTask.frames := h
    rw [sendDone] at h'
    split at h'
    · split at h'
      · exact .inl h'
      · split at h'
        · rw [hconnect] at h'
          exact .inl h'
        · rw [hfailure] at h'
          exact .inl h'
    · exact .inl h'
  | drainerConnectDone ok =>
    have h' : text ∈ (relay.drainerConnectDone env ok).wakeTask.frames := h
    rw [drainerConnectDone] at h'
    split at h'
    · split at h'
      · exact .inl h'
      · rw [hfailure] at h'
        exact .inl h'
    · exact .inl h'
  | awake =>
    have h' : text ∈ (relay.awake env).wakeTask.frames := h
    rw [awake] at h'
    split at h'
    · rw [hconnect] at h'
      exact .inl h'
    · exact .inl h'
  | _ => exact .inl h

end Relay

end Nipworker
