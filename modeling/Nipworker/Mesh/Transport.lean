/-
The byte transport of the mesh (`crates/mesh/src/transport.rs`, `crates/mesh/src/framing.rs`).

A connected peer has a link: the MTU it was connected with, a reassembler for what it writes,
and a bounded queue for what it is sent.  A frame is cut into fragments for the MTU of its link
and queued as a whole or not at all.
-/
import Nipworker.Lib.Utf8
import Nipworker.Mesh.Reconcile

namespace Nipworker

open List

/-- `TransportConfig`; the timeout is in milliseconds. -/
structure TransportConfig where
  maxMessageSize : ℕ
  reassemblyTimeout : ℕ
  maxInflightMessages : ℕ
  maxInflightBytes : ℕ
  maxOutboundFrames : ℕ
  maxOutboundBytes : ℕ
  deriving DecidableEq, Repr

/-- `TransportConfig::default`. -/
def TransportConfig.standard : TransportConfig where
  maxMessageSize := 64 * 1024
  reassemblyTimeout := 30000
  maxInflightMessages := 8
  maxInflightBytes := 256 * 1024
  maxOutboundFrames := 1024
  maxOutboundBytes := 512 * 1024

/-- The frames that wait for a peer, within two limits. -/
structure OutboundQueue where
  frames : List Bytes
  bytes : ℕ
  maxFrames : ℕ
  maxBytes : ℕ
  deriving DecidableEq, Repr

namespace OutboundQueue

def new (maxFrames maxBytes : ℕ) : OutboundQueue := ⟨[], 0, maxFrames, maxBytes⟩

def enqueue (self : OutboundQueue) (frames : List Bytes) : Except MeshError OutboundQueue :=
  let addedBytes := (frames.map List.length).sum
  if self.frames.length + frames.length > self.maxFrames
      ∨ self.bytes + addedBytes > self.maxBytes then
    .error (.frame "outbound queue full")
  else .ok { self with bytes := self.bytes + addedBytes, frames := self.frames ++ frames }

def pop (self : OutboundQueue) : Option (Bytes × OutboundQueue) :=
  match self.frames with
  | [] => none
  | frame :: rest => some (frame, { self with frames := rest, bytes := self.bytes - frame.length })

end OutboundQueue

/-- The link to one peer. -/
structure PeerLink where
  mtu : ℕ
  reassembler : Reassembler
  outbound : OutboundQueue

/-- The calls of a byte transport. -/
structure MeshByteTransport where
  config : TransportConfig
  fragmenter : Fragmenter
  peers : Map String PeerLink

/-- `serde_json`, on the values and the events of the mesh. -/
structure MeshJson where
  fromStr : String → Option Value
  toText : Value → String
  toText_ne : ∀ value, toText value ≠ ""
  /-- `Serialize` of an event. -/
  ofEvent : CanonicalEvent → Value
  /-- `Deserialize` of an event. -/
  toEvent : Value → Option CanonicalEvent

def NostrFrame.fromString (json : MeshJson) (frame : String) : Except MeshError NostrFrame :=
  match json.fromStr frame with
  | none => .error .json
  | some value =>
    match value.asArray with
    | none => .error .invalidFrame
    | some _ => .ok ⟨some value⟩

/-- `NostrFrame::as_str`, in bytes, for a frame that is sent. -/
def NostrFrame.text (json : MeshJson) (frame : NostrFrame) : Bytes :=
  match frame.json with
  | some value => Utf8.encode (json.toText value)
  | none => []

namespace MeshByteTransport

def new (config : TransportConfig) : MeshByteTransport where
  config := config
  fragmenter := Fragmenter.new config.maxMessageSize
  peers := ∅

def newLink (config : TransportConfig) (mtu : ℕ) : PeerLink where
  mtu := mtu
  reassembler := Reassembler.new config.reassemblyTimeout config.maxMessageSize
    config.maxInflightMessages config.maxInflightBytes
  outbound := OutboundQueue.new config.maxOutboundFrames config.maxOutboundBytes

def peerConnected (self : MeshByteTransport) (peerId : String) (mtu : ℕ) :
    Except MeshError MeshByteTransport :=
  if mtu ≤ 17 then .error (.frame "peer MTU too small")
  else .ok { self with peers := self.peers.insert peerId (newLink self.config mtu) }

def peerDisconnected (self : MeshByteTransport) (peerId : String) : MeshByteTransport :=
  { self with peers := self.peers.erase peerId }

def unknownPeer (peerId : String) : MeshError := .frame ("unknown peer " ++ peerId)

def send (json : MeshJson) (self : MeshByteTransport) (peerId : String) (frame : NostrFrame) :
    Except MeshError Unit × MeshByteTransport :=
  match self.peers.lookup peerId with
  | none => (.error (unknownPeer peerId), self)
  | some peer =>
    match self.fragmenter.fragment (frame.text json) peer.mtu with
    | .error e => (.error e, self)
    | .ok (fragments, fragmenter) =>
      -- the message has its id, also when the queue does not take it
      match peer.outbound.enqueue fragments with
      | .error e => (.error e, { self with fragmenter := fragmenter })
      | .ok outbound => (.ok (), { self with
          fragmenter := fragmenter
          peers := self.peers.insert peerId { peer with outbound := outbound } })

def popOutbound (self : MeshByteTransport) (peerId : String) :
    Option Bytes × MeshByteTransport :=
  match self.peers.lookup peerId with
  | none => (none, self)
  | some peer =>
    match peer.outbound.pop with
    | none => (none, self)
    | some (frame, outbound) =>
      (some frame, { self with peers := self.peers.insert peerId { peer with outbound := outbound } })

def receive (json : MeshJson) (self : MeshByteTransport) (peerId : String) (bytes : Bytes)
    (now : ℕ) : Except MeshError (Option NostrFrame) × MeshByteTransport :=
  match self.peers.lookup peerId with
  | none => (.error (unknownPeer peerId), self)
  | some peer =>
    let (result, reassembler) := peer.reassembler.push bytes now
    let self := { self with
      peers := self.peers.insert peerId { peer with reassembler := reassembler } }
    match result with
    | .error e => (.error e, self)
    | .ok none => (.ok none, self)
    | .ok (some message) =>
      match String.fromUTF8? message.toByteArray with
      | none => (.error (.frame "Nostr frame is not UTF-8"), self)
      | some text => ((NostrFrame.fromString json text).map some, self)

/-! ### Which peers have a link -/

/-- The limits of a transport that was made with the standard configuration. -/
structure Standard (t : MeshByteTransport) : Prop where
  config : t.config = .standard
  size : t.fragmenter.maxMessageSize = 64 * 1024

/-- Calls that change neither the set of links nor the limits. -/
structure SameLinks (t t' : MeshByteTransport) : Prop where
  peers : ∀ id, id ∈ t'.peers ↔ id ∈ t.peers
  standard : t.Standard → t'.Standard

theorem SameLinks.refl (t : MeshByteTransport) : SameLinks t t := ⟨fun _ => Iff.rfl, fun h => h⟩

theorem SameLinks.trans {t t' t'' : MeshByteTransport} (h : SameLinks t t')
    (h' : SameLinks t' t'') : SameLinks t t'' :=
  ⟨fun id => (h'.peers id).trans (h.peers id), fun hs => h'.standard (h.standard hs)⟩

theorem standard_new : (new .standard).Standard := ⟨rfl, rfl⟩

variable {json : MeshJson} {t t' : MeshByteTransport} {peerId : String} {mtu : ℕ}

theorem mem_insert_of_lookup {peers : Map String PeerLink} {peer peer' : PeerLink}
    (h : peers.lookup peerId = some peer) (id : String) :
    id ∈ peers.insert peerId peer' ↔ id ∈ peers := by
  rw [AList.mem_insert]
  refine ⟨?_, .inr⟩
  rintro (rfl | hmem)
  · exact AList.lookup_isSome.mp (by rw [h]; rfl)
  · exact hmem

theorem size_fragment {f f' : Fragmenter} {message : Bytes} {frames : List Bytes}
    (h : f.fragment message mtu = .ok (frames, f')) : f'.maxMessageSize = f.maxMessageSize := by
  obtain ⟨-, -, -, -, -, rfl⟩ := Fragmenter.fragment_eq_ok h
  rfl

theorem sameLinks_send (t : MeshByteTransport) (peerId : String) (frame : NostrFrame) :
    SameLinks t (t.send json peerId frame).2 := by
  rw [send]
  cases hpeer : t.peers.lookup peerId with
  | none => exact .refl t
  | some peer =>
    dsimp only
    cases hfragment : t.fragmenter.fragment (frame.text json) peer.mtu with
    | error e => exact .refl t
    | ok result =>
      obtain ⟨fragments, fragmenter⟩ := result
      have hsize := size_fragment hfragment
      dsimp only
      cases henqueue : peer.outbound.enqueue fragments with
      | error e => exact ⟨fun _ => Iff.rfl, fun hs => ⟨hs.config, hsize.trans hs.size⟩⟩
      | ok outbound =>
        exact ⟨mem_insert_of_lookup hpeer, fun hs => ⟨hs.config, hsize.trans hs.size⟩⟩

theorem sameLinks_popOutbound (t : MeshByteTransport) (peerId : String) :
    SameLinks t (t.popOutbound peerId).2 := by
  rw [popOutbound]
  cases hpeer : t.peers.lookup peerId with
  | none => exact .refl t
  | some peer =>
    dsimp only
    cases hpop : peer.outbound.pop with
    | none => exact .refl t
    | some result => exact ⟨mem_insert_of_lookup hpeer, fun hs => ⟨hs.config, hs.size⟩⟩

theorem sameLinks_receive (t : MeshByteTransport) (peerId : String) (bytes : Bytes) (now : ℕ) :
    SameLinks t (t.receive json peerId bytes now).2 := by
  rw [receive]
  cases hpeer : t.peers.lookup peerId with
  | none => exact .refl t
  | some peer =>
    have hsame : ∀ peer', SameLinks t { t with peers := t.peers.insert peerId peer' } :=
      fun peer' => ⟨mem_insert_of_lookup hpeer, fun hs => ⟨hs.config, hs.size⟩⟩
    dsimp only
    cases (peer.reassembler.push bytes now).1 with
    | error e => exact hsame _
    | ok message =>
      cases message with
      | none => exact hsame _
      | some message =>
        dsimp only
        cases String.fromUTF8? message.toByteArray with
        | none => exact hsame _
        | some text => exact hsame _

theorem peerConnected_of_le (h : mtu ≤ 17) (t : MeshByteTransport) (peerId : String) :
    t.peerConnected peerId mtu = .error (.frame "peer MTU too small") := if_pos h

theorem peerConnected_of_lt (h : 17 < mtu) (t : MeshByteTransport) (peerId : String) :
    t.peerConnected peerId mtu
      = .ok { t with peers := t.peers.insert peerId (newLink t.config mtu) } :=
  if_neg (Nat.not_le.mpr h)

/-! ### What a new link takes -/

theorem sum_length_fragments (id : UInt32) (message : Bytes) {size : ℕ} (hsize : 0 < size) :
    (((Fragmenter.fragments id message size).map Fragment.encode).map List.length).sum
      = headerLen * divCeil message.length size + message.length := by
  have hlengths : ((Fragmenter.fragments id message size).map Fragment.encode).map List.length
      = (chunks size message).map fun payload => headerLen + payload.length := by
    rw [map_map, Fragmenter.fragments]
    refine ext_getElem ?_ fun i hi hi' => ?_
    · rw [length_map, length_map, length_mapIdx]
    · rw [getElem_map, getElem_map, getElem_mapIdx]
      exact Fragment.length_encode _
  have hflatten := congrArg List.length (flatten_chunks hsize message)
  rw [length_flatten] at hflatten
  rw [hlengths, sum_map_add, hflatten, map_const', sum_replicate, length_chunks,
    smul_eq_mul, Nat.mul_comm]

/-- **Through an empty queue** with the standard limits go the frames within 64 KiB and within
1024 fragments. -/
theorem send_empty_queue_iff (hstandard : t.Standard) (hpeer : t.peers.lookup peerId
    = some (newLink .standard mtu)) (hmtu : 17 < mtu) (frame : NostrFrame) :
    (t.send json peerId frame).1 = .ok () ↔ frame.text json ≠ []
      ∧ (frame.text json).length ≤ 64 * 1024
      ∧ divCeil (frame.text json).length (mtu - 17) ≤ 1024 := by
  rw [send, hpeer]
  dsimp only
  have hlink : (newLink .standard mtu).mtu = mtu := rfl
  rw [hlink]
  generalize frame.text json = message
  rw [Fragmenter.fragment, hstandard.size]
  by_cases hsize : message = [] ∨ message.length > 64 * 1024
  · rw [if_pos hsize]
    constructor
    · intro h
      simp only [reduceCtorEq] at h
    · rintro ⟨hne, hle, -⟩
      obtain hnil | hlong := hsize
      · exact absurd hnil hne
      · omega
  · have hmtu' : ¬ mtu ≤ headerLen := Nat.not_le.mpr hmtu
    rw [if_neg hsize, if_neg hmtu']
    dsimp only
    rw [not_or] at hsize
    have hcount : divCeil message.length (mtu - headerLen) = divCeil message.length (mtu - 17) := rfl
    have hroom : 0 < mtu - headerLen := by omega
    have hbytes := sum_length_fragments t.fragmenter.nextMessageId message hroom
    by_cases hmany : divCeil message.length (mtu - headerLen) > 65535
    · rw [if_pos hmany]
      constructor
      · intro h
        simp only [reduceCtorEq] at h
      · rintro ⟨-, -, hfew⟩
        omega
    · rw [if_neg hmany]
      dsimp only
      have hframes : (newLink .standard mtu).outbound = ⟨[], 0, 1024, 512 * 1024⟩ := rfl
      rw [OutboundQueue.enqueue, hframes]
      dsimp only
      rw [hbytes, length_map, Fragmenter.length_fragments, length_nil]
      -- with 1024 fragments of a 64 KiB message the byte limit is not reached
      have hheader : headerLen = 17 := rfl
      by_cases hfull : 0 + divCeil message.length (mtu - headerLen) > 1024
          ∨ 0 + (headerLen * divCeil message.length (mtu - headerLen) + message.length)
            > 512 * 1024
      · rw [if_pos hfull]
        constructor
        · intro h
          simp only [reduceCtorEq] at h
        · rintro ⟨-, hle, hfew⟩
          rw [hheader] at hfull
          omega
      · rw [if_neg hfull]
        refine ⟨fun _ => ⟨hsize.1, ?_, ?_⟩, fun _ => rfl⟩
        · omega
        · rw [hheader] at hfull
          omega

end MeshByteTransport

end Nipworker
