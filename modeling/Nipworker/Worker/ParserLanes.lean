/-
From the relays' sockets to the main thread (`worker/connections_worker.rs`,
`worker/parser_worker.rs`, `transport/fb_utils.rs`).

A frame of a relay goes through the writer of the connections worker and its
batch buffers, the channel to the parser, the ingress task, one of two lanes, one
of ten shards and the batch buffers of the channel to main.  All tasks of a
worker run on one thread, so what stands between two awaits is one step here, and
the steps of the tasks interleave in any order.

Every frame of a relay and every response of the cache worker is numbered when it
arrives, and what is made from it carries its number as an `Origin`; no decision
looks at it.  What a pipeline answers is given with the step, so that everything
holds for every pipeline.
-/
import Nipworker.Worker.OutWriter
import Nipworker.Worker.StampedBatches

namespace Nipworker

/-! ### Messages -/

/-- The content of a `WorkerMessage`, as far as a shard looks at it. -/
inductive MessageContent
  | connectionStatus (relayUrl status : String) (message : Option String)
  | raw (text : String)
  | eoce
  | parsedEvent
  | nostrEvent
  | other
  deriving DecidableEq

/-- A message between the workers. -/
structure WorkerMessage where
  subId : Option String
  url : Option String
  content : MessageContent
  deriving DecidableEq

/-- What `build_worker_message` uses of it. -/
structure RelayResponse where
  kind : List Char
  rawPayload : Option (List Char)

def parseRelayResponse (rawMsg : String) : Option RelayResponse :=
  (scanRelayFrame rawMsg).map fun scan =>
    { kind := scan.kind
      rawPayload :=
        if scan.kind = "EVENT".toList then scan.args[1]?.map ScannedValue.raw
        else if scan.kind = "EOSE".toList then none
        else if scan.kind = "OK".toList then scan.args[1]?.map ScannedValue.inner
        else if scan.kind = "NOTICE".toList ∨ scan.kind = "AUTH".toList then
          scan.args[0]?.map ScannedValue.inner
        else if scan.kind = "CLOSED".toList then scan.args[1]?.map ScannedValue.raw
        else none }

def parseOkStatusReason (rawMsg : String) : String × Option String :=
  match scanRelayFrame rawMsg with
  | some scan =>
    (String.ofList ((scan.args[1]?.map ScannedValue.inner).getD "false".toList),
      (scan.args[2]?.map ScannedValue.inner).map String.ofList)
  | none => ("false", none)

/-- The kinds that become a `ConnectionStatus`. -/
def statusKinds : List (List Char) :=
  ["NOTICE".toList, "AUTH".toList, "CLOSED".toList, "EOSE".toList, "OK".toList]

/-- The envelope of a frame. -/
def buildWorkerMessage (subId url rawLine : String) : WorkerMessage :=
  let parsed := parseRelayResponse rawLine
  let kind := (parsed.map RelayResponse.kind).getD "RAW".toList
  let payload := (parsed.bind RelayResponse.rawPayload).map String.ofList
  { subId := some subId
    url := some url
    content :=
      if kind ∈ statusKinds then
        let status := if kind = "OK".toList then parseOkStatusReason rawLine
          else (String.ofList kind, payload)
        .connectionStatus url status.1 status.2
      else .raw (payload.getD rawLine) }

/-- `serialize_connection_status` of the parser worker. -/
def connectionStatus (relayUrl status message : String) : WorkerMessage :=
  { subId := none, url := none, content := .connectionStatus relayUrl status (some message) }

/-- `serialize_connection_status` of the connections worker. -/
def relayStatus (status url : String) : WorkerMessage :=
  { subId := none, url := some url, content := .connectionStatus url status none }

/-- `serialize_eoce`. -/
def eoceMessage : WorkerMessage := { subId := none, url := none, content := .eoce }

def unpackBatchedMessages (payload : Bytes) : List Bytes :=
  match hframe : takeFrame payload with
  | none => []
  | some (message, rest) =>
    if message = [] then []
    else
      have : rest.length < payload.length := takeFrame_shorter hframe
      message :: unpackBatchedMessages rest
termination_by payload.length

/-! ### Origins -/

/-- What something was made from: the frame or the cache response of that number,
or something of the worker's own. -/
inductive Stamp
  | network (number : ℕ)
  | cache (number : ℕ)
  | own
  deriving DecidableEq

/-- A stamp with the subscription the frame or response was for. -/
structure Origin where
  subId : String
  stamp : Stamp
  deriving DecidableEq

/-! ### The writer of the connections worker -/

/-- An event, with the number of its frame. -/
structure RawFrame where
  number : ℕ
  eventJson : String
  deriving DecidableEq

def RawFrame.enc (f : RawFrame) : Bytes := Utf8.encode f.eventJson

/-- A message on the channel from the connections worker to the parser. -/
inductive ConnPacket
  | rawBatch (subId : String) (frames : List RawFrame)
  | control (number : ℕ) (subId url msg : String)
  | relayStatus (status url : String)

/-- The cells `out_writer` works on. -/
structure StampedWriter where
  maps : SubIdMaps
  dedup : Map String SubDedup
  parserBatches : StampedBatches RawFrame

namespace StampedWriter

def new : StampedWriter :=
  { maps := SubIdMaps.empty, dedup := ∅, parserBatches := StampedBatches.new }

/-- What it sends to the parser for the frame of that number. -/
def outWriter (w : StampedWriter) (number : ℕ) (url subId msg : String) (now : ℕ) :
    StampedWriter × List ConnPacket :=
  let fullSubId := decodeRelaySubId w.maps subId
  let routed := route w.dedup fullSubId msg
  let w := { w with dedup := routed.2 }
  match routed.1 with
  | .crypto => (w, [])
  | .duplicate => (w, [])
  | .raw eventJson =>
    let added := w.parserBatches.addMessage RawFrame.enc fullSubId
      ⟨number, String.ofList eventJson⟩ now
    ({ w with parserBatches := added.1 }, added.2.toList.map (.rawBatch fullSubId))
  | .control =>
    let flushed := w.parserBatches.flushSub fullSubId
    ({ w with parserBatches := flushed.1 },
      flushed.2.toList.map (.rawBatch fullSubId) ++ [.control number fullSubId url msg])

/-- The writer of the source, with the numbers forgotten. -/
structure Simulates (w : StampedWriter) (v : WriterState) : Prop where
  maps : v.maps = w.maps
  dedup : v.dedup = w.dedup
  batches : StampedBatches.Simulates RawFrame.enc w.parserBatches v.parserBatches

end StampedWriter

/-- A message on the channel, with the numbers forgotten. -/
def ConnPacket.toOutgoing : ConnPacket → Option Outgoing
  | .rawBatch subId frames => some (.rawConnBatch (StampedBuffer.payload RawFrame.enc subId frames))
  | .control _ subId url msg => some (.workerMessage subId url msg)
  | .relayStatus _ _ => none

def Outgoing.toParser : Outgoing → Bool
  | .cryptoMessage _ _ _ => false
  | _ => true

/-- **The numbered writer is the writer of the source**: the same cells and the
same messages to the parser. -/
theorem StampedWriter.outWriter_simulates {w : StampedWriter} {v : WriterState}
    (h : w.Simulates v) (number : ℕ) (url subId msg : String) (now : ℕ) :
    (w.outWriter number url subId msg now).1.Simulates (Nipworker.outWriter v url subId msg now).1 ∧
      (Nipworker.outWriter v url subId msg now).2.filter Outgoing.toParser =
        (w.outWriter number url subId msg now).2.filterMap ConnPacket.toOutgoing := by
  obtain ⟨hmaps, hdedup, hbatches⟩ := h
  unfold StampedWriter.outWriter Nipworker.outWriter
  rw [hmaps, hdedup]
  dsimp only
  cases hroute : (route w.dedup (decodeRelaySubId w.maps subId) msg).1 with
  | crypto => exact ⟨⟨rfl, rfl, hbatches⟩, rfl⟩
  | duplicate => exact ⟨⟨rfl, rfl, hbatches⟩, rfl⟩
  | raw eventJson =>
    obtain ⟨hadded, hpayload⟩ := StampedBatches.simulates_addMessage hbatches
      (decodeRelaySubId w.maps subId) ⟨number, String.ofList eventJson⟩ now
    refine ⟨⟨rfl, rfl, hadded⟩, ?_⟩
    -- the numbered frame has the bytes the source puts into the buffer
    have hpayload : (v.parserBatches.addMessage (decodeRelaySubId w.maps subId)
        (Utf8.encode (String.ofList eventJson)) now).2 = _ := hpayload
    dsimp only
    rw [hpayload]
    cases (w.parserBatches.addMessage RawFrame.enc (decodeRelaySubId w.maps subId)
      ⟨number, String.ofList eventJson⟩ now).2 <;> rfl
  | control =>
    obtain ⟨hflushed, hpayload⟩ := StampedBatches.simulates_flushSub hbatches
      (decodeRelaySubId w.maps subId)
    refine ⟨⟨rfl, rfl, hflushed⟩, ?_⟩
    dsimp only
    rw [hpayload]
    cases (w.parserBatches.flushSub (decodeRelaySubId w.maps subId)).2 <;> rfl

/-! ### The channel to main -/

/-- What the main thread gets. -/
inductive MainMessage
  | worker (message : WorkerMessage)
  | output (bytes : Bytes)
  deriving DecidableEq

/-- A message for the main thread with what it was made from. -/
structure MainItem where
  origin : Origin
  message : MainMessage
  deriving DecidableEq

/-- The code outside this repository that decides something here: FlatBuffers
both ways, the hasher of the standard library and `serde_json`. -/
structure LanesEnv where
  serialize : WorkerMessage → Bytes
  root : Bytes → Option WorkerMessage
  hash : String → ℕ
  serde : SerdeJson

def MainItem.enc (env : LanesEnv) (item : MainItem) : Bytes :=
  match item.message with
  | .worker message => env.serialize message
  | .output bytes => bytes

/-- `main_batches` and the payloads sent to main. -/
structure MainPort where
  batches : StampedBatches MainItem
  sent : List (String × List MainItem)

namespace MainPort

variable (env : LanesEnv) (port : MainPort)

def new : MainPort := { batches := StampedBatches.new, sent := [] }

def sendOutputToMain (subId : String) (item : MainItem) (now : ℕ) : MainPort :=
  let added := port.batches.addMessage (MainItem.enc env) subId item now
  { batches := added.1, sent := port.sent ++ added.2.toList.map fun items => (subId, items) }

/-- `send_output_to_main` in a loop. -/
def sendOutputs (subId : String) (items : List MainItem) (now : ℕ) : MainPort :=
  items.foldl (fun port item => port.sendOutputToMain env subId item now) port

def flushMain (subId : String) : MainPort :=
  let flushed := port.batches.flushSub subId
  { batches := flushed.1, sent := port.sent ++ flushed.2.toList.map fun items => (subId, items) }

def flushTimedOutBatches (iter : IterOrder String) (now : ℕ) : MainPort :=
  let drained := port.batches.drainTimedOut iter now
  { batches := drained.1, sent := port.sent ++ drained.2 }

end MainPort

/-! ### Shards and lanes -/

def numShards : ℕ := 10

def slowShards : ℕ := 2

/-- `BATCH_SIZE`. -/
def shardBatchSize : ℕ := 8

/-- `Sub`, without its pipeline. -/
structure ParserSub where
  eosed : Bool
  closeOnEose : Bool
  closedRelays : Finset String
  publishId : Option String
  forcedShard : Option ℕ

/-- The bytes of a `ShardTask`: a raw event (`NetworkRaw`), or a `WorkerMessage`
unless they are none. -/
inductive ShardBody
  | networkRaw (eventJson : String)
  | message (message : Option WorkerMessage)

/-- What waits for a shard. -/
structure ShardTask where
  sid : String
  stamp : Stamp
  body : ShardBody

def ShardTask.origin (task : ShardTask) : Origin := ⟨task.sid, task.stamp⟩

/-- The entrances of a pipeline. -/
inductive PipelineCall
  | process
  | processCachedBatch
  | processBytes
  | flushEose (url : String)
  | flushEoce

/-- One shard: the task whose pipeline it waits for, the rest of its local batch,
its channel. -/
structure Shard where
  running : Option (ShardTask × PipelineCall)
  batch : List ShardTask
  queue : List ShardTask

/-- What the ingress task has still to hand on: a frame of the network, or a
message of a cache response with the shard and lane chosen for the response. -/
inductive IngressItem
  | frame (task : ShardTask)
  | routed (shard : ℕ) (slow : Bool) (task : ShardTask)

structure CacheResponse where
  subId : String
  payload : Bytes

/-- A frame that reached `out_writer`, with the id it was decoded to. -/
structure FrameArrival where
  url : String
  subId : String
  msg : String
  deriving DecidableEq

/-- The shard of a subscription, and whether it is a slow one. -/
def laneOf (hash : String → ℕ) (subs : Map String ParserSub) (sid : String) : ℕ × Bool :=
  match (subs.lookup sid).bind ParserSub.forcedShard with
  | some idx =>
    let clamped := min idx (numShards - 1)
    let slowStart := numShards - max slowShards 1
    (clamped, slowStart ≤ clamped)
  | none =>
    let fastCount := numShards - slowShards
    (if 0 < fastCount then hash sid % fastCount else hash sid % numShards, false)

/-- The connections worker's side of the channel and the parser worker.
`arrivals` and `responses` are the frames and responses so far. -/
structure Lanes where
  writer : StampedWriter
  arrivals : List FrameArrival
  fromConnections : List ConnPacket
  responses : List CacheResponse
  fromCache : List (ℕ × CacheResponse)
  ingress : List IngressItem
  lane : Bool → List (ℕ × ShardTask)
  shard : ℕ → Shard
  port : MainPort
  subs : Map String ParserSub
  slowRr : ℕ
  toConnections : List (String × Option String)

namespace Lanes

variable (env : LanesEnv) (st : Lanes)

def new : Lanes where
  writer := StampedWriter.new
  arrivals := []
  fromConnections := []
  responses := []
  fromCache := []
  ingress := []
  lane := fun _ => []
  shard := fun _ => { running := none, batch := [], queue := [] }
  port := MainPort.new
  subs := ∅
  slowRr := 0
  toConnections := []

/-! The connections worker. -/

/-- A frame of a relay reaches `out_writer`. -/
def frame (url subId msg : String) (now : ℕ) : Lanes :=
  let written := st.writer.outWriter st.arrivals.length url subId msg now
  { st with
    writer := written.1
    arrivals := st.arrivals ++ [⟨url, decodeRelaySubId st.writer.maps subId, msg⟩]
    fromConnections := st.fromConnections ++ written.2 }

def sweepConnections (iter : IterOrder String) (now : ℕ) : Lanes :=
  let drained := st.writer.parserBatches.drainTimedOut iter now
  { st with
    writer := { st.writer with parserBatches := drained.1 }
    fromConnections := st.fromConnections ++ drained.2.map fun p => .rawBatch p.1 p.2 }

/-! The ingress task. -/

def frames : ConnPacket → List IngressItem
  | .rawBatch subId frames =>
    frames.map fun f => .frame ⟨subId, .network f.number, .networkRaw f.eventJson⟩
  | .control number subId url msg =>
    [.frame ⟨subId, .network number, .message (some (buildWorkerMessage subId url msg))⟩]
  | .relayStatus status url =>
    [.frame ⟨"", .own, .message (some (Nipworker.relayStatus status url))⟩]

/-- `from_connections` is received, when everything received before was handed on. -/
def receiveConnections : Lanes :=
  match st.ingress, st.fromConnections with
  | [], packet :: rest => { st with ingress := frames packet, fromConnections := rest }
  | _, _ => st

/-- The tasks of a cache response: an empty payload is the end of the cache. -/
def responseTasks (number : ℕ) (response : CacheResponse) : List ShardTask :=
  if response.payload = [] then
    [⟨response.subId, .cache number, .message (some eoceMessage)⟩]
  else (unpackBatchedMessages response.payload).map fun bytes =>
    ⟨response.subId, .cache number, .message (env.root bytes)⟩

/-- `from_cache` is received; the lane is chosen here, for the whole response. -/
def receiveCache : Lanes :=
  match st.ingress, st.fromCache with
  | [], (number, response) :: rest =>
    if response.subId = "" then { st with fromCache := rest }
    else
      let home := laneOf env.hash st.subs response.subId
      { st with
        ingress := (responseTasks env number response).map (.routed home.1 home.2)
        fromCache := rest }
  | _, _ => st

def enqueue (shard : ℕ) (slow : Bool) (task : ShardTask) : Lanes :=
  { st with lane := Function.update st.lane slow (st.lane slow ++ [(shard, task)]) }

/-- A `ConnectionStatus` is what a frame without a subscription may be. -/
def ShardBody.relayStatus? : ShardBody → Option WorkerMessage
  | .message (some ⟨subId, url, .connectionStatus relayUrl status message⟩) =>
    some ⟨subId, url, .connectionStatus relayUrl status message⟩
  | _ => none

def ingressNext (now : ℕ) : Lanes :=
  match st.ingress with
  | [] => st
  | .routed shard slow task :: rest => { st with ingress := rest }.enqueue shard slow task
  | .frame task :: rest =>
    let st := { st with ingress := rest }
    if task.sid = "" then
      match ShardBody.relayStatus? task.body with
      | some message =>
        { st with port :=
          (st.port.sendOutputToMain env "" ⟨task.origin, .worker message⟩ now).flushMain "" }
      | none => st
    else
      let home := laneOf env.hash st.subs task.sid
      st.enqueue home.1 home.2 task

/-! The dispatchers and the shards. -/

def setShard (idx : ℕ) (shard : Shard) : Lanes :=
  { st with shard := Function.update st.shard idx shard }

def dispatch (slow : Bool) : Lanes :=
  match st.lane slow with
  | [] => st
  | (idx, task) :: rest =>
    { st with lane := Function.update st.lane slow rest }.setShard idx
      { st.shard idx with queue := (st.shard idx).queue ++ [task] }

/-- A shard that has nothing left takes its next local batch. -/
def shardPull (idx : ℕ) : Lanes :=
  match (st.shard idx).running, (st.shard idx).batch with
  | none, [] =>
    st.setShard idx
      { running := none
        batch := (st.shard idx).queue.take shardBatchSize
        queue := (st.shard idx).queue.drop shardBatchSize }
  | _, _ => st

/-- The end of the EOSE branch: the outputs, the status, the flush, and a CLOSE
for the relay when the subscription asks for it. -/
def finishEose (task : ShardTask) (url : String) (outputs : List Bytes) (now : ℕ) : Lanes :=
  let port := ((st.port.sendOutputs env task.sid
      (outputs.map fun o => ⟨task.origin, .output o⟩) now).sendOutputToMain env task.sid
      ⟨task.origin, .worker (connectionStatus url "EOSE" "")⟩ now).flushMain task.sid
  match st.subs.lookup task.sid with
  | none => { st with port := port }
  | some sub =>
    if sub.closeOnEose ∧ url ≠ "" ∧ url ∉ sub.closedRelays then
      { st with
        port := port
        subs := st.subs.insert task.sid
          { sub with eosed := true, closedRelays := insert url sub.closedRelays }
        toConnections := st.toConnections ++ [(task.sid, some url)] }
    else { st with port := port, subs := st.subs.insert task.sid { sub with eosed := true } }

/-- A status other than EOSE: an OK goes to whoever published. -/
def acceptedStatus (task : ShardTask) (url status reason : String) (now : ℕ) : Lanes :=
  let batchSubId := ((st.subs.lookup task.sid).bind ParserSub.publishId).getD task.sid
  { st with port := (st.port.sendOutputToMain env batchSubId
      ⟨task.origin, .worker (connectionStatus url status reason)⟩ now).flushMain batchSubId }

/-- The pipeline a `WorkerMessage` goes to, when its subscription is there. -/
def contentCall : MessageContent → Option PipelineCall
  | .connectionStatus _ _ _ => none
  | .raw text => if text = "" then none else some .process
  | .eoce => some .flushEoce
  | .parsedEvent => some .processCachedBatch
  | .nostrEvent => some .processBytes
  | .other => none

/-- The shard waits for a pipeline, unless the subscription is gone. -/
def await (idx : ℕ) (task : ShardTask) (call : PipelineCall) : Lanes :=
  if task.sid = "" then st
  else if (st.subs.lookup task.sid).isSome then
    st.setShard idx { st.shard idx with running := some (task, call) }
  else st

/-- `handle_message_single` up to where it waits for the pipeline. -/
def handleMessageSingle (idx : ℕ) (task : ShardTask) (now : ℕ) : Lanes :=
  match task.body with
  | .networkRaw eventJson => if eventJson = "" then st else st.await idx task .process
  | .message none => st
  | .message (some message) =>
    match message.content with
    | .connectionStatus _ status reason =>
      let url := message.url.getD ""
      if status = "NOTICE" ∨ status = "AUTH" ∨ status = "CLOSED" then st
      else if status = "EOSE" then
        if (st.subs.lookup task.sid).isSome then
          st.setShard idx { st.shard idx with running := some (task, .flushEose url) }
        else st.finishEose env task url [] now
      else st.acceptedStatus env task url status (reason.getD "") now
    | content =>
      match contentCall content with
      | some call => st.await idx task call
      | none => st

def shardStart (idx : ℕ) (now : ℕ) : Lanes :=
  match (st.shard idx).running, (st.shard idx).batch with
  | none, task :: rest =>
    (st.setShard idx { st.shard idx with batch := rest }).handleMessageSingle env idx task now
  | _, _ => st

/-- The pipeline answered: `process` gives one output or none, the others a list. -/
def shardFinish (idx : ℕ) (outputs : List Bytes) (now : ℕ) : Lanes :=
  match (st.shard idx).running with
  | none => st
  | some (task, call) =>
    let st := st.setShard idx { st.shard idx with running := none }
    let send (outputs : List Bytes) : MainPort := st.port.sendOutputs env task.sid
      (outputs.map fun o => ⟨task.origin, .output o⟩) now
    match call with
    | .process => { st with port := send (outputs.take 1) }
    | .processBytes => { st with port := send (outputs.take 1) }
    | .processCachedBatch => { st with port := send outputs }
    | .flushEose url => st.finishEose env task url outputs now
    | .flushEoce =>
      { st with port := ((send outputs).sendOutputToMain env task.sid
          ⟨task.origin, .worker eoceMessage⟩ now).flushMain task.sid }

/-! The command loop. -/

/-- `open_subscription`; `ok` is whether its pipeline could be built. -/
def openSubscription (subId : String) (closeOnEose isSlow ok : Bool) : Lanes :=
  if (st.subs.lookup subId).isSome ∨ ok = false then st
  else
    let slowCount := if slowShards = 0 then 1 else slowShards
    let slowStart := numShards - slowCount
    { st with
      slowRr := if isSlow then st.slowRr + 1 else st.slowRr
      subs := st.subs.insert subId
        { eosed := false
          closeOnEose := closeOnEose
          closedRelays := ∅
          publishId := none
          forcedShard := if isSlow then some (slowStart + st.slowRr % slowCount) else none } }

def closeSubscription (subId : String) : Lanes :=
  { st with
    toConnections := st.toConnections ++ [(subId, none)]
    subs := st.subs.erase subId
    port := st.port.flushMain subId }

/-- The entry `publish_event` makes for the event it published. -/
def publishEvent (publishId eventId : String) : Lanes :=
  { st with
    subs := st.subs.insert eventId
      { eosed := false
        closeOnEose := false
        closedRelays := ∅
        publishId := some publishId
        forcedShard := none } }

/-- What `inject_optimistic_event` sends for one subscription. -/
def injectOptimisticEvent (subId : String) (output : Bytes) (now : ℕ) : Lanes :=
  { st with port :=
    (st.port.sendOutputToMain env subId ⟨⟨subId, .own⟩, .output output⟩ now).flushMain subId }

end Lanes

inductive LanesAct
  | frame (url subId msg : String) (now : ℕ)
  | relayStatus (status url : String)
  | register (frame : String)
  | release (subId : String)
  | sweepConnections (iter : IterOrder String) (now : ℕ)
  | cacheResponse (response : CacheResponse)
  | receiveConnections
  | receiveCache
  | ingressNext (now : ℕ)
  | dispatch (slow : Bool)
  | shardPull (idx : ℕ)
  | shardStart (idx : ℕ) (now : ℕ)
  | shardFinish (idx : ℕ) (outputs : List Bytes) (now : ℕ)
  | sweepMain (iter : IterOrder String) (now : ℕ)
  | openSubscription (subId : String) (closeOnEose isSlow ok : Bool)
  | closeSubscription (subId : String)
  | publishEvent (publishId eventId : String)
  | injectOptimisticEvent (subId : String) (output : Bytes) (now : ℕ)

def Lanes.step (env : LanesEnv) (st : Lanes) : LanesAct → Lanes
  | .frame url subId msg now => st.frame url subId msg now
  | .relayStatus status url =>
    { st with fromConnections := st.fromConnections ++ [.relayStatus status url] }
  | .register frame =>
    { st with writer :=
      { st.writer with maps := (encodeRelayFrame env.serde st.writer.maps frame).2 } }
  | .release subId =>
    { st with writer := { st.writer with dedup := st.writer.dedup.erase subId } }
  | .sweepConnections iter now => st.sweepConnections iter now
  | .cacheResponse response =>
    { st with
      responses := st.responses ++ [response]
      fromCache := st.fromCache ++ [(st.responses.length, response)] }
  | .receiveConnections => st.receiveConnections
  | .receiveCache => st.receiveCache env
  | .ingressNext now => st.ingressNext env now
  | .dispatch slow => st.dispatch slow
  | .shardPull idx => st.shardPull idx
  | .shardStart idx now => st.shardStart env idx now
  | .shardFinish idx outputs now => st.shardFinish env idx outputs now
  | .sweepMain iter now => { st with port := st.port.flushTimedOutBatches iter now }
  | .openSubscription subId closeOnEose isSlow ok =>
    st.openSubscription subId closeOnEose isSlow ok
  | .closeSubscription subId => st.closeSubscription subId
  | .publishEvent publishId eventId => st.publishEvent publishId eventId
  | .injectOptimisticEvent subId output now => st.injectOptimisticEvent env subId output now

end Nipworker
