/-
The mesh runtime (`crates/mesh/src/runtime.rs`, `crates/mesh/src/cache.rs`).

The runtime has a session with each peer and a transport with a link to each peer.  The frames
of a peer are read with its session, with the store of the cache and with nothing else; what
they are answered with goes back through its link.

The cache worker is on the other side of a channel.  What it does during a call is an input of
the call: whether it takes a message, and what it answers to a request before it closes.  The
JSON package, the hash of a label, the signature check, the FlatBuffer readers, the set
reconciliation and the walk of a hash map are parameters.
-/
import Nipworker.Mesh.EventStore
import Nipworker.Mesh.Session
import Nipworker.Mesh.Transport

namespace Nipworker

open MeshCache

/-! ### Reading a frame -/

namespace Value

def member (fields : List (String × Value)) (name : String) : Option Value :=
  (fields.find? fun field => field.1 = name).map Prod.snd

def asObject : Value → Option (List (String × Value))
  | object fields => some fields
  | _ => none

/-- An integer of 64 bits; the number `-0` is not an integer. -/
def asI64 : Value → Option ℤ
  | number text =>
    match text.toList with
    | '-' :: digits =>
      match Text.parseDecimal digits with
      | none => none
      | some n => if n = 0 ∨ n > 2 ^ 63 then none else some (-(n : ℤ))
    | digits =>
      match Text.parseDecimal digits with
      | none => none
      | some n => if n ≥ 2 ^ 63 then none else some n
  | _ => none

/-- `i32::try_from`. -/
def tryI32 (n : ℤ) : Option Int32 :=
  if -(2 ^ 31) ≤ n ∧ n < 2 ^ 31 then some (Int32.ofInt n) else none

/-- The common body of `strings` and `numbers`: a missing member is an empty list. -/
def members {α : Type} (read : Value → Option α) (fields : List (String × Value))
    (name : String) : Except MeshError (List α) :=
  match member fields name with
  | none => .ok []
  | some value =>
    match value.asArray with
    | none => .error .invalidFrame
    | some items => items.mapM fun item =>
      match read item with
      | none => .error .invalidFrame
      | some a => .ok a

/-- A number of 32 bits; any other member counts as missing. -/
def int32Member (fields : List (String × Value)) (name : String) : Option Int32 :=
  ((member fields name).bind asI64).bind tryI32

end Value

def requestFromFilter (filter : Value) : Except MeshError Request :=
  match filter.asObject with
  | none => .error .invalidFrame
  | some fields => do
    let ids ← Value.members Value.asStr fields "ids"
    let authors ← Value.members Value.asStr fields "authors"
    let kinds ← Value.members (fun item => item.asI64.bind Value.tryI32) fields "kinds"
    return {
      ids := ids
      authors := authors
      kinds := kinds
      tags := ∅
      sinceTime := Value.int32Member fields "since"
      untilTime := Value.int32Member fields "until"
      limit := Value.int32Member fields "limit"
      search := none }

namespace NostrFrame

def request (subscriptionId : String) (ids : List String) : NostrFrame :=
  ⟨some (.array [.string "REQ", .string subscriptionId,
    .object [("ids", .array (ids.map Value.string))]])⟩

def publish (json : MeshJson) (event : CanonicalEvent) : NostrFrame :=
  ⟨some (.array [.string "EVENT", json.ofEvent event])⟩

def response (json : MeshJson) (subscriptionId : String) (event : CanonicalEvent) : NostrFrame :=
  ⟨some (.array [.string "EVENT", .string subscriptionId, json.ofEvent event])⟩

def eose (subscriptionId : String) : NostrFrame :=
  ⟨some (.array [.string "EOSE", .string subscriptionId])⟩

end NostrFrame

/-! ### The runtime -/

/-- The packages and the hash map order that the runtime works with. -/
structure MeshCrates (Id Storage Reconciler : Type) where
  negentropy : Negentropy Id Storage Reconciler
  json : MeshJson
  blake3 : String → Bytes
  suite : SchnorrSuite
  verifier : EventVerifier
  buffers : MeshBuffers
  order : IterOrder String

/-- `MeshError`, as the calls return it. -/
inductive RuntimeError
  | mesh (e : MeshError)
  | cache (e : CacheError)
  deriving DecidableEq, Repr

/-- What goes to the cache worker: a request, or a message to keep. -/
inductive CacheMessage
  | request (subId : String) (requests : List Request)
  | record (message : EventMessage)

/-- The cache worker during a call: the messages it takes, and what it answers to a request
before it closes the channel. -/
structure CacheChannel where
  takes : CacheMessage → Bool
  answers : String → List Request → List Bytes

/-- `Peer`, with the events of its `MemoryEventStore`. -/
structure MeshPeer (Reconciler : Type) where
  session : PeerSession Reconciler
  snapshot : Map String CanonicalEvent
  nextSubscription : ℕ

/-- `MeshRuntime`, with the counter of its `MeshCacheClient`. -/
structure MeshRuntime (Reconciler : Type) where
  nextRequestId : ℕ
  transport : MeshByteTransport
  peers : Map String (MeshPeer Reconciler)

namespace MeshRuntime

variable {Id Storage Reconciler : Type} (crates : MeshCrates Id Storage Reconciler)

def new : MeshRuntime Reconciler := ⟨0, .new .standard, ∅⟩

/-- `MemoryEventStore::events`. -/
def storeEvents (store : Map String CanonicalEvent) : List CanonicalEvent :=
  (crates.order.order store.keys).filterMap fun id => store.lookup id

/-- `MemoryEventStore::persist`. -/
def persistInStore (store : Map String CanonicalEvent) (event : CanonicalEvent) :
    Map String CanonicalEvent :=
  if event.id ∈ store then store else store.insert event.id event

def query (channel : CacheChannel) (self : MeshRuntime Reconciler) (requests : List Request) :
    Except CacheError (List CanonicalEvent) × MeshRuntime Reconciler :=
  let subId := "mesh-cache:" ++ toString self.nextRequestId
  let self := { self with nextRequestId := (self.nextRequestId + 1) % 2 ^ 64 }
  if channel.takes (.request subId requests) then
    (collect crates.buffers subId (channel.answers subId requests) [], self)
  else (.error .cacheChannelClosed, self)

/-- What `persist`, `pin_profile` and `clear_profile` end with. -/
def keep (channel : CacheChannel) (message : EventMessage) : Except CacheError Unit :=
  if channel.takes (.record message) then .ok () else .error .cacheChannelClosed

/-- The request of `kind_zero_snapshot`. -/
def kindZeroRequest : Request where
  ids := []
  authors := []
  kinds := [0]
  tags := ∅
  sinceTime := none
  untilTime := none
  limit := none
  search := none

def kindZeroSnapshot (channel : CacheChannel) (self : MeshRuntime Reconciler) :
    Except CacheError (Map String CanonicalEvent) × MeshRuntime Reconciler :=
  let (events, self) := self.query crates channel [kindZeroRequest]
  (events.map fun events => events.foldl persistInStore ∅, self)

def stablePeerLabel (peerId : String) : String := Hex.encode ((crates.blake3 peerId).take 8)

/-- The session that `peer_connected` opens, and the frame it opens it with. -/
def openingOf (peerId : String) (snapshot : Map String CanonicalEvent) :
    Except MeshError (NostrFrame × PeerSession Reconciler) :=
  PeerSession.beginSync crates.negentropy ⟨∅⟩ ("mesh-kind0-" ++ stablePeerLabel crates peerId)
    (.object [("kinds", .array [.number "0"])]) (storeEvents crates snapshot)

def peerConnected (channel : CacheChannel) (self : MeshRuntime Reconciler) (peerId : String)
    (mtu : ℕ) : Except RuntimeError Unit × MeshRuntime Reconciler :=
  match self.transport.peerConnected peerId mtu with
  | .error e => (.error (.mesh e), self)
  | .ok transport =>
    -- from here on the peer has a link
    let (snapshot, self) :=
      kindZeroSnapshot crates channel { self with transport := transport }
    match snapshot with
    | .error e => (.error (.cache e), self)
    | .ok snapshot =>
      match openingOf crates peerId snapshot with
      | .error e => (.error (.mesh e), self)
      | .ok (opening, session) =>
        let (sent, transport) := self.transport.send crates.json peerId opening
        match sent with
        | .error e => (.error (.mesh e), { self with transport := transport })
        | .ok () => (.ok (), { self with
            transport := transport
            peers := self.peers.insert peerId ⟨session, snapshot, 0⟩ })

def peerDisconnected (self : MeshRuntime Reconciler) (peerId : String) : MeshRuntime Reconciler :=
  { self with
    transport := self.transport.peerDisconnected peerId
    peers := self.peers.erase peerId }

def setPeer (self : MeshRuntime Reconciler) (peerId : String) (peer : MeshPeer Reconciler) :
    MeshRuntime Reconciler :=
  { self with peers := self.peers.insert peerId peer }

def unknownSender (peerId : String) : RuntimeError :=
  .mesh (.frame ("frame from unknown peer " ++ peerId))

/-- The frames for a finished reconciliation: the events the peer misses, and a request for
those it has. -/
def differenceFrames (peerId : String) (peer : MeshPeer Reconciler) (difference : SyncDifference) :
    List NostrFrame × MeshPeer Reconciler :=
  let published := (difference.haveIds.filterMap fun id => peer.snapshot.lookup id).map
    (NostrFrame.publish crates.json)
  if difference.needIds = [] then (published, peer)
  else
    let requestId := "mesh-missing-" ++ stablePeerLabel crates peerId ++ "-"
      ++ toString peer.nextSubscription
    (published ++ [NostrFrame.request requestId difference.needIds],
      { peer with nextSubscription := (peer.nextSubscription + 1) % 2 ^ 64 })

/-- The `NEG-OPEN` arm of `handle_frame`. -/
def handleNegOpen (channel : CacheChannel) (self : MeshRuntime Reconciler) (peerId : String)
    (frame : NostrFrame) : Except RuntimeError (List NostrFrame) × MeshRuntime Reconciler :=
  let (snapshot, self) := kindZeroSnapshot crates channel self
  match snapshot with
  | .error e => (.error (.cache e), self)
  | .ok snapshot =>
    match self.peers.lookup peerId with
    | none => (.error (unknownSender peerId), self)
    | some peer =>
      let peer := { peer with snapshot := snapshot }
      match peer.session.handle crates.negentropy frame (storeEvents crates snapshot) with
      | .error e => (.error (.mesh e), self.setPeer peerId peer)
      | .ok (output, session) =>
        (.ok output.frames, self.setPeer peerId { peer with session := session })

/-- The `NEG-MSG` and `NEG-CLOSE` arm of `handle_frame`. -/
def handleNegMsg (self : MeshRuntime Reconciler) (peerId : String) (frame : NostrFrame) :
    Except RuntimeError (List NostrFrame) × MeshRuntime Reconciler :=
  match self.peers.lookup peerId with
  | none => (.error (unknownSender peerId), self)
  | some peer =>
    match peer.session.handle crates.negentropy frame (storeEvents crates peer.snapshot) with
    | .error e => (.error (.mesh e), self)
    | .ok (output, session) =>
      let peer := { peer with session := session }
      match output.completed with
      | none => (.ok output.frames, self.setPeer peerId peer)
      | some difference =>
        let (frames, peer) := differenceFrames crates peerId peer difference
        (.ok (output.frames ++ frames), self.setPeer peerId peer)

/-- The `REQ` arm of `handle_frame`. -/
def handleReq (channel : CacheChannel) (self : MeshRuntime Reconciler) (array : List Value) :
    Except RuntimeError (List NostrFrame) × MeshRuntime Reconciler :=
  match array[1]?.bind Value.asStr with
  | none => (.error (.mesh .invalidFrame), self)
  | some subscriptionId =>
    if array.drop 2 = [] then (.error (.mesh .invalidFrame), self)
    else
      match (array.drop 2).mapM requestFromFilter with
      | .error e => (.error (.mesh e), self)
      | .ok requests =>
        let (events, self) := self.query crates channel requests
        match events with
        | .error e => (.error (.cache e), self)
        | .ok events =>
          (.ok (events.map (NostrFrame.response crates.json subscriptionId)
            ++ [NostrFrame.eose subscriptionId]), self)

/-- The event of an `EVENT` frame: its last member. -/
def eventMember (array : List Value) : Option Value :=
  if array.length = 2 then array[1]?
  else if array.length = 3 then array[2]?
  else none

/-- The `EVENT` arm of `handle_frame`. -/
def handleEvent (channel : CacheChannel) (self : MeshRuntime Reconciler) (peerId : String)
    (array : List Value) : Except RuntimeError (List NostrFrame) × MeshRuntime Reconciler :=
  match eventMember array with
  | none => (.error (.mesh .invalidFrame), self)
  | some value =>
    match crates.json.toEvent value with
    | none => (.error (.mesh .json), self)
    | some event =>
      match validateEvent crates.suite crates.verifier event with
      | .error e => (.error (.cache e), self)
      | .ok () =>
        if event.kind ≠ 0 then
          (.error (.cache (.invalidEvent "initial mesh policy only accepts kind 0")), self)
        else
          match keep channel (buildWorkerMessage event "save_to_db" ("ble://" ++ peerId)) with
          | .error e => (.error (.cache e), self)
          | .ok () =>
            match self.peers.lookup peerId with
            | none => (.ok [], self)
            | some peer => (.ok [], self.setPeer peerId
                { peer with snapshot := persistInStore peer.snapshot event })

def handleFrame (channel : CacheChannel) (self : MeshRuntime Reconciler) (peerId : String)
    (frame : NostrFrame) : Except RuntimeError (List NostrFrame) × MeshRuntime Reconciler :=
  match frame.json with
  | none => (.error (.mesh .json), self)
  | some value =>
    match value.asArray with
    | none => (.error (.mesh .invalidFrame), self)
    | some array =>
      match array.head?.bind Value.asStr with
      | none => (.error (.mesh .invalidFrame), self)
      | some kind =>
        if kind = "NEG-OPEN" then handleNegOpen crates channel self peerId frame
        else if kind = "NEG-MSG" ∨ kind = "NEG-CLOSE" then handleNegMsg crates self peerId frame
        else if kind = "REQ" then handleReq crates channel self array
        else if kind = "EVENT" then handleEvent crates channel self peerId array
        else if kind = "EOSE" then (.ok [], self)
        else (.error (.mesh (.unexpectedSessionMessage kind)), self)

/-- The loop of `receive_fragment`: the responses, until one cannot be sent. -/
def sendAll (self : MeshRuntime Reconciler) (peerId : String) :
    List NostrFrame → Except RuntimeError Unit × MeshRuntime Reconciler
  | [] => (.ok (), self)
  | frame :: rest =>
    let (sent, transport) := self.transport.send crates.json peerId frame
    let self := { self with transport := transport }
    match sent with
    | .error e => (.error (.mesh e), self)
    | .ok () => sendAll self peerId rest

def receiveFragment (channel : CacheChannel) (self : MeshRuntime Reconciler) (peerId : String)
    (fragment : Bytes) (now : ℕ) : Except RuntimeError Unit × MeshRuntime Reconciler :=
  let (received, transport) := self.transport.receive crates.json peerId fragment now
  let self := { self with transport := transport }
  match received with
  | .error e => (.error (.mesh e), self)
  | .ok none => (.ok (), self)
  | .ok (some frame) =>
    let (responses, self) := handleFrame crates channel self peerId frame
    match responses with
    | .error e => (.error e, self)
    | .ok responses => sendAll crates self peerId responses

/-- The calls of the runtime. -/
inductive Call
  | peerConnected (channel : CacheChannel) (peerId : String) (mtu : ℕ)
  | peerDisconnected (peerId : String)
  | receiveFragment (channel : CacheChannel) (peerId : String) (fragment : Bytes) (now : ℕ)
  | popOutbound (peerId : String)
  | setLocalProfile (channel : CacheChannel) (event : CanonicalEvent)
  | clearLocalProfile (channel : CacheChannel)

/-- The runtime after a call, whether it returns an error or not.  The profile calls only
read it, and change the cache. -/
def step (self : MeshRuntime Reconciler) : Call → MeshRuntime Reconciler
  | .peerConnected channel peerId mtu => (peerConnected crates channel self peerId mtu).2
  | .peerDisconnected peerId => self.peerDisconnected peerId
  | .receiveFragment channel peerId fragment now =>
    (receiveFragment crates channel self peerId fragment now).2
  | .popOutbound peerId => { self with transport := (self.transport.popOutbound peerId).2 }
  | .setLocalProfile _ _ => self
  | .clearLocalProfile _ => self

end MeshRuntime

end Nipworker
