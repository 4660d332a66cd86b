/-
A relay connection (`transport/connection.rs`).

A `RelayConnection` owns one relay: frames are enqueued without waiting, a drainer task
sends them and reconnects when a send fails, `wake` replaces the socket and replays the
active subscriptions, and the NIP-42 handshake runs on the first answer of the relay.
Everything runs on one thread, so tasks interleave at their awaits only: a send, a
connect and a sleep each end in a step of their own.

The clock, the room in the queue and the order of a walk over a hash map come with
every step; what the transport answers is part of the step.
-/
import Nipworker.Lib.Run
import Nipworker.Types.Nostr

namespace Nipworker

/-! ### Frames -/

/-- The text without the quotes around it (`trim_matches('"')`). -/
def trimQuotes (text : String) : String :=
  String.ofList (Text.trimMatches (fun c => c = '"') text.toList)

/-- The value of `"id"` in an event object. -/
def eventObjId (event : String) : Option String := do
  let tail ← Text.afterFirst "\"id\"".toList event.toList
  let value ← Text.afterFirst [':'] tail
  match value.dropWhile Text.isWhitespace with
  | '"' :: rest =>
    let quoted ← Text.splitOnce '"' rest
    if quoted.1 = [] then none else some (String.ofList quoted.1)
  | _ => none

/-- An outgoing frame, as far as the connection looks at it. -/
inductive OutgoingFrame
  | close (sub : String)
  | req (sub : String)
  | event (id : String)
  | other
  deriving DecidableEq

/-- How `send_raw_internal` reads a frame that was sent. -/
def OutgoingFrame.ofText (text : String) : OutgoingFrame :=
  match extractFirstThree text with
  | some (some kind, second, _) =>
    if trimQuotes kind = "CLOSE" then
      match second with
      | some sub => .close (trimQuotes sub)
      | none => .other
    else if trimQuotes kind = "REQ" then
      match second with
      | some sub => .req (trimQuotes sub)
      | none => .other
    else if trimQuotes kind = "EVENT" then
      match second.bind eventObjId with
      | some id => .event id
      | none => .other
    else .other
  | _ => .other

/-- `["CLOSE","<sub>"]`. -/
def closeFrame (sub : String) : String := "[\"CLOSE\",\"" ++ sub ++ "\"]"

/-- `["AUTH",<event>]`. -/
def authFrame (event : String) : String := "[\"AUTH\"," ++ event ++ "]"

/-- `["OK","<id>","<state>"]`, the notices the connection writes itself. -/
def noticeFrame (id state : String) : String := "[\"OK\",\"" ++ id ++ "\",\"" ++ state ++ "\"]"

/-- `validate_relay_url`. -/
def validRelayUrl (url : String) : Bool :=
  url ≠ "" ∧ ("ws://".toList.isPrefixOf url.toList ∨ "wss://".toList.isPrefixOf url.toList)

/-! ### State -/

/-- Whether the socket is open. -/
inductive ConnectionStatus
  | disconnected
  | connecting
  | connected
  | failed
  | closed
  deriving DecidableEq

/-- How far the authentication has come. -/
inductive AuthState
  | unknown
  | required (challenge : String)
  | pending
  | authenticated
  | failed
  deriving DecidableEq

/-- What the transport reports. -/
inductive TransportStatus
  | connected
  | failed
  | closed

/-- Who has sent a frame. -/
inductive FrameSource
  | caller
  | closeSub
  | auth
  | authReplay
  | wakeReplay
  deriving DecidableEq

/-- What the connection did and heard. -/
inductive RelayEffect
  /-- A frame entered the queue. -/
  | enqueued (source : FrameSource) (text : String)
  /-- `transport.send` succeeded. -/
  | sent (text : String)
  /-- The drainer gave a frame up. -/
  | dropped (text : String)
  /-- `transport.connect` succeeded. -/
  | opened
  /-- `transport.disconnect` was called. -/
  | disconnected
  /-- The transport failed or closed on its own. -/
  | lost
  /-- A frame of the relay was understood. -/
  | received (kind : String) (sub content : Option String)
  /-- `close_sub` took a subscription out. -/
  | subClosed (sub : String)
  /-- A signature was asked for. -/
  | signRequested (requestId : ℕ) (challenge relay : String) (createdAt : ℕ)
  /-- A signed event came back for a request. -/
  | signed (requestId : ℕ) (event : String)
  /-- `set_authenticated`. -/
  | authenticated
  /-- `out_writer`. -/
  | wrote (sub text : String)
  /-- `status_writer`. -/
  | statusWritten (status : String)
  deriving DecidableEq

/-- The state, and the log of what the connection did and heard. -/
structure RelayConnection where
  url : String
  status : ConnectionStatus
  activeSubs : Finset String
  activeReqs : Map String (List String)
  backoffAttempts : ℕ
  nextRetryAtMs : ℕ
  connectionConfirmed : Bool
  wakeInFlight : Bool
  queue : List String
  pendingFrames : ℕ
  authState : AuthState
  preAuthQueue : List String
  nextAuthId : ℕ
  log : List RelayEffect

/-- The clock, the room in the queue and the order of a walk. -/
structure RelayEnv where
  now : ℕ
  capacity : ℕ
  iter : IterOrder String

def reconnectRetryBaseDelayMs : ℕ := 30000

def reconnectRetryMaxDelayMs : ℕ := 30 * 60000

def authRequestIdMask : ℕ := 2 ^ 63

namespace RelayConnection

variable (env : RelayEnv) (conn : RelayConnection)

/-- The state `RelayConnection::new` builds. -/
def new (url : String) : RelayConnection where
  url := url
  status := .connecting
  activeSubs := ∅
  activeReqs := ∅
  backoffAttempts := 0
  nextRetryAtMs := 0
  connectionConfirmed := false
  wakeInFlight := false
  queue := []
  pendingFrames := 0
  authState := .unknown
  preAuthQueue := []
  nextAuthId := 1
  log := [.statusWritten "connecting"]

def emit (effect : RelayEffect) : RelayConnection :=
  { conn with log := conn.log ++ [effect] }

def clearBackoff : RelayConnection := { conn with backoffAttempts := 0, nextRetryAtMs := 0 }

def clearRetryDeadline : RelayConnection := { conn with nextRetryAtMs := 0 }

def shouldDelayReconnect : Bool := env.now < conn.nextRetryAtMs

/-- `schedule_reconnect_backoff`; the count saturates. -/
def scheduleReconnectBackoff : RelayConnection :=
  let attempt := min (conn.backoffAttempts + 1) (2 ^ 32 - 1)
  let shift := min (attempt - 1) 6
  let delay := min (reconnectRetryBaseDelayMs * 2 ^ shift) reconnectRetryMaxDelayMs
  { conn with backoffAttempts := attempt, nextRetryAtMs := env.now + delay }

def confirmConnection : RelayConnection := clearBackoff { conn with connectionConfirmed := true }

/-- `try_send` on the queue: one more frame, when there is room. -/
def enqueue (source : FrameSource) (text : String) : RelayConnection :=
  if conn.queue.length < env.capacity then
    emit { conn with queue := conn.queue ++ [text], pendingFrames := conn.pendingFrames + 1 }
      (.enqueued source text)
  else conn

def close : RelayConnection :=
  let conn := { conn with status := .closed }.emit .disconnected
  let conn := clearBackoff { conn with connectionConfirmed := false }
  { conn with preAuthQueue := [], authState := .unknown }.emit (.statusWritten "close")

def shadowPreAuthReq (text : String) : RelayConnection :=
  match conn.authState with
  | .unknown | .required _ | .pending =>
    if text ∈ conn.preAuthQueue then conn
    else { conn with preAuthQueue := conn.preAuthQueue ++ [text] }
  | _ => conn

def recordReq (sub text : String) : RelayConnection :=
  let frames := (conn.activeReqs.lookup sub).getD []
  { conn with
    activeSubs := insert sub conn.activeSubs
    activeReqs := conn.activeReqs.insert sub (if text ∈ frames then frames else frames ++ [text]) }

def forgetSub (sub : String) : RelayConnection :=
  { conn with activeSubs := conn.activeSubs.erase sub, activeReqs := conn.activeReqs.erase sub }

/-- `send_raw_internal` after the transport has taken the frame. -/
def sendRawInternal (text : String) : RelayConnection :=
  let conn := conn.confirmConnection.emit (.sent text)
  match OutgoingFrame.ofText text with
  | .close sub =>
    -- the last subscription takes the transport with it
    let conn := if conn.activeSubs.erase sub = ∅ then conn.close else conn
    (conn.forgetSub sub).emit (.wrote sub (noticeFrame sub "CLOSED"))
  | .req sub =>
    ((conn.shadowPreAuthReq text).recordReq sub text).emit
      (.wrote sub (noticeFrame sub "SUBSCRIBED"))
  | .event id => conn.emit (.wrote id (noticeFrame id "SENT"))
  | .other => conn

/-- `connect` up to its await; `true` when the transport is being opened. -/
def connectStart : RelayConnection × Bool :=
  if conn.shouldDelayReconnect env then (conn, false)
  else
    ({ conn with status := .connecting, connectionConfirmed := false }.emit
      (.statusWritten "connecting"), validRelayUrl conn.url)

/-- `connect` when the transport could not be opened. -/
def connectFailed : RelayConnection :=
  ({ conn with status := .failed }.emit (.statusWritten "failed")).scheduleReconnectBackoff env

/-- `connect` when the transport is open. -/
def connectDone : RelayConnection :=
  { conn.emit .opened with status := .connected, authState := .unknown }.emit
    (.statusWritten "connected")

/-! ### NIP-42 -/

def requestAuthSignature (challenge : String) : RelayConnection :=
  { conn with nextAuthId := conn.nextAuthId + 1 }.emit
    (.signRequested (conn.nextAuthId % authRequestIdMask + authRequestIdMask) challenge conn.url
      (env.now / 1000))

/-- The shadow copies are replayed when the relay asked for the authentication. -/
def setAuthenticated : RelayConnection :=
  let done := { conn with authState := .authenticated, preAuthQueue := [] }.emit .authenticated
  if conn.authState = .pending then
    conn.preAuthQueue.foldl (fun c frame => c.enqueue env .authReplay frame) done
  else done

/-- An OK that says yes: `true` first, or the string `"true"`. -/
def acceptedContent (content : String) : Bool :=
  "true".toList.isPrefixOf (content.toList.dropWhile Text.isWhitespace) ∨
    Text.trim content.toList = "\"true\"".toList

def handleFirstResponse (kind content : String) : RelayConnection :=
  match conn.authState with
  | .unknown =>
    if kind = "AUTH" then
      { conn with authState := .required (trimQuotes content) }.requestAuthSignature env
        (trimQuotes content)
    else conn.setAuthenticated env
  | .pending =>
    if kind = "OK" ∧ acceptedContent content then conn.setAuthenticated env else conn
  | _ => conn

/-- `handle_signed_auth`, on the answer to a signing request. -/
def handleSignedAuth (requestId : ℕ) (event : String) : RelayConnection :=
  { (conn.emit (.signed requestId event)).enqueue env .auth (authFrame event) with
    authState := .pending }

/-! ### Callbacks and calls -/

/-- A frame was understood; CLOSED takes its subscription out. -/
def noteReceived (kind : String) (sub content : Option String) : RelayConnection :=
  let conn := conn.emit (.received kind sub content)
  match sub with
  | some sub => if kind = "CLOSED" then conn.forgetSub sub else conn
  | none => conn

def handleIncomingMessage (text : String) : RelayConnection :=
  let conn := conn.confirmConnection
  match parseIncomingRelayText text with
  | none => conn
  | some (kind, sub, content) =>
    ((conn.noteReceived kind sub content).handleFirstResponse env kind (content.getD "")).emit
      (.wrote (sub.getD "") text)

/-- The socket was lost: a cooldown starts, and the authentication begins again. -/
def loseTransport (auth : AuthState) : RelayConnection :=
  match conn.status with
  | .closed | .connecting | .failed => conn
  | _ =>
    let conn := { conn with status := .failed, connectionConfirmed := false }.emit .lost
    { conn.scheduleReconnectBackoff env with preAuthQueue := [], authState := auth }.emit
      (.statusWritten "failed")

def handleTransportStatus : TransportStatus → RelayConnection
  | .failed => conn.loseTransport env .failed
  | .closed => conn.loseTransport env .unknown
  | .connected => { conn with status := .connected }.emit (.statusWritten "connected")

def sendRaw (text : String) : RelayConnection := conn.enqueue env .caller text

def closeSub (sub : String) : RelayConnection :=
  if sub ∈ conn.activeSubs then
    ((conn.forgetSub sub).emit (.subClosed sub)).enqueue env .closeSub (closeFrame sub)
  else conn

def hasRecoveryWork : Bool := conn.activeReqs.keys ≠ [] ∨ 0 < conn.pendingFrames

/-- The frames a wake replays: those of all active subscriptions. -/
def replayFrames : List String :=
  (env.iter.order conn.activeReqs.keys).flatMap fun sub => (conn.activeReqs.lookup sub).getD []

end RelayConnection

/-! ### Tasks -/

/-- The task that `RelayConnection::new` spawns. -/
inductive InitialConnect
  | ready
  | connecting
  | done
  deriving DecidableEq

/-- The reconnects of the drainer for one frame: the immediate one, then the staged
ones. -/
inductive RetryStage
  | reconnect
  | staged (idx : ℕ)
  deriving DecidableEq

/-- `queue_drainer`, at its awaits; `healthy` is `was_previously_connected`, and the direct
send of a frame has no stage. -/
inductive Drainer
  | notStarted
  | idle
  | sending (frame : String) (healthy : Bool) (stage : Option RetryStage)
  | connecting (frame : String) (healthy : Bool) (stage : RetryStage)
  | sleeping (frame : String) (healthy : Bool) (idx : ℕ)
  deriving DecidableEq

/-- How far a wake has come. -/
inductive WakeTask
  | none
  | ready (frames : List String)
  | connecting (frames : List String)
  deriving DecidableEq

/-- A connection and its tasks. -/
structure Relay where
  conn : RelayConnection
  initial : InitialConnect
  drainer : Drainer
  wakeTask : WakeTask

/-- One step: a call, a callback, or a task going on after an await. -/
inductive RelayAction
  | sendRaw (text : String)
  | closeSub (sub : String)
  | close
  | wake
  | signedAuth (requestId : ℕ) (event : String)
  | incoming (text : String)
  | transportStatus (status : TransportStatus)
  | initialStart
  | initialDone (ok : Bool)
  | wakeStart
  | wakeDone (ok : Bool)
  | take
  | sendDone (ok : Bool)
  | drainerConnectDone (ok : Bool)
  | awake

/-- `HEALTHY_RETRY_DELAYS_MS` and `COLD_START_RETRY_DELAYS_MS`. -/
def retryDelaysMs (healthy : Bool) : List ℕ := if healthy then [200, 800, 2000] else [200]

namespace Relay

variable (env : RelayEnv) (relay : Relay)

def new (url : String) : Relay := ⟨.new url, .ready, .notStarted, .none⟩

/-- The end of a successful `connect`, `init_queue_drainer` included. -/
def connectDone : Relay :=
  { relay with
    conn := relay.conn.connectDone
    drainer := if relay.drainer = .notStarted then .idle else relay.drainer }

/-- All retries are used up: the frame is dropped and a cooldown starts. -/
def giveUp (frame : String) : Relay :=
  let conn := relay.conn.emit (.dropped frame)
  { relay with
    conn := if conn.shouldDelayReconnect env then conn else conn.scheduleReconnectBackoff env
    drainer := .idle }

def retryFrom (frame : String) (healthy : Bool) (idx : ℕ) : Relay :=
  if idx < (retryDelaysMs healthy).length then
    { relay with conn := relay.conn.clearRetryDeadline, drainer := .sleeping frame healthy idx }
  else relay.giveUp env frame

/-- What follows a failed reconnect, or a failed send after one. -/
def afterFailure (frame : String) (healthy : Bool) : RetryStage → Relay
  | .reconnect => relay.retryFrom env frame healthy 0
  | .staged idx => relay.retryFrom env frame healthy (idx + 1)

def drainerConnect (frame : String) (healthy : Bool) (stage : RetryStage) : Relay :=
  let start := relay.conn.connectStart env
  if start.2 then { relay with conn := start.1, drainer := .connecting frame healthy stage }
  else { relay with conn := start.1 }.afterFailure env frame healthy stage

def take : Relay :=
  match relay.drainer, relay.conn.queue with
  | .idle, frame :: rest =>
    let conn := { relay.conn with queue := rest, pendingFrames := relay.conn.pendingFrames - 1 }
    if conn.shouldDelayReconnect env then { relay with conn := conn.emit (.dropped frame) }
    else { relay with conn := conn, drainer := .sending frame conn.connectionConfirmed none }
  | _, _ => relay

def sendDone (ok : Bool) : Relay :=
  match relay.drainer with
  | .sending frame healthy stage =>
    if ok then { relay with conn := relay.conn.sendRawInternal frame, drainer := .idle }
    else
      match stage with
      | none => relay.drainerConnect env frame healthy .reconnect
      | some stage => relay.afterFailure env frame healthy stage
  | _ => relay

def drainerConnectDone (ok : Bool) : Relay :=
  match relay.drainer with
  | .connecting frame healthy stage =>
    if ok then { relay.connectDone with drainer := .sending frame healthy (some stage) }
    else { relay with conn := relay.conn.connectFailed env }.afterFailure env frame healthy stage
  | _ => relay

def awake : Relay :=
  match relay.drainer with
  | .sleeping frame healthy idx => relay.drainerConnect env frame healthy (.staged idx)
  | _ => relay

/-- `wake`, up to the task it spawns. -/
def wake : Relay :=
  if !relay.conn.hasRecoveryWork then relay
  else if relay.conn.wakeInFlight then relay
  else
    { relay with
      conn := { relay.conn with wakeInFlight := true }.clearBackoff
      wakeTask := .ready (relay.conn.replayFrames env) }

def wakeStart : Relay :=
  match relay.wakeTask with
  | .ready frames =>
    let start := relay.conn.close.clearBackoff.connectStart env
    if start.2 then { relay with conn := start.1, wakeTask := .connecting frames }
    else { relay with conn := { start.1 with wakeInFlight := false }, wakeTask := .none }
  | _ => relay

/-- The end of a wake: the frames are replayed when the transport is open. -/
def wakeDone (ok : Bool) : Relay :=
  match relay.wakeTask with
  | .connecting frames =>
    if ok then
      let relay := relay.connectDone
      { relay with
        conn := { frames.foldl (fun c frame => c.enqueue env .wakeReplay frame) relay.conn with
          wakeInFlight := false }
        wakeTask := .none }
    else
      { relay with
        conn := { relay.conn.connectFailed env with wakeInFlight := false }
        wakeTask := .none }
  | _ => relay

def initialStart : Relay :=
  match relay.initial with
  | .ready =>
    let start := relay.conn.connectStart env
    if start.2 then { relay with conn := start.1, initial := .connecting }
    else { relay with conn := start.1.emit (.statusWritten "failed"), initial := .done }
  | _ => relay

def initialDone (ok : Bool) : Relay :=
  match relay.initial with
  | .connecting =>
    if ok then { relay.connectDone with initial := .done }
    else
      { relay with
        conn := (relay.conn.connectFailed env).emit (.statusWritten "failed"), initial := .done }
  | _ => relay

/-- The connection with its three tasks: the first connect, the drainer and a wake. -/
def step (relay : Relay) (input : RelayEnv × RelayAction) : Relay :=
  let env := input.1
  match input.2 with
  | .sendRaw text => { relay with conn := relay.conn.sendRaw env text }
  | .closeSub sub => { relay with conn := relay.conn.closeSub env sub }
  | .close => { relay with conn := relay.conn.close }
  | .wake => relay.wake env
  | .signedAuth requestId event =>
    { relay with conn := relay.conn.handleSignedAuth env requestId event }
  | .incoming text => { relay with conn := relay.conn.handleIncomingMessage env text }
  | .transportStatus status => { relay with conn := relay.conn.handleTransportStatus env status }
  | .initialStart => relay.initialStart env
  | .initialDone ok => relay.initialDone env ok
  | .wakeStart => relay.wakeStart env
  | .wakeDone ok => relay.wakeDone env ok
  | .take => relay.take env
  | .sendDone ok => relay.sendDone env ok
  | .drainerConnectDone ok => relay.drainerConnectDone env ok
  | .awake => relay.awake env

end Relay

def stepsAt (now : ℕ) (actions : List RelayAction) : List (RelayEnv × RelayAction) :=
  actions.map fun a => (⟨now, 64, .entries String⟩, a)

end Nipworker
