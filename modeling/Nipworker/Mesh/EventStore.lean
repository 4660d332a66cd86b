/-
Events of the mesh in the cache (`crates/mesh/src/cache.rs`, `crates/mesh/src/runtime.rs`).

An event that a peer sends is checked, written into a `WorkerMessage` and stored as it is by
the cache worker; a query reads the stored messages back, batch by batch.  The table of an
event has 32 bits for its time.
-/
import Nipworker.Mesh.Reconcile
import Nipworker.Types.EventFlatbuffer
import Nipworker.Crypto.SignEvent

namespace Nipworker

open List

namespace MeshCache

/-! ### The check of an event -/

/-- `MeshError`, as this code raises it. -/
inductive CacheError
  | invalidEvent (message : String)
  | cacheChannelClosed
  | invalidCacheResponse
  | invalidCacheRecord
  | unexpectedCacheResponse (expected actual : String)
  deriving DecidableEq, Repr

/-- What `verify_event_signature` takes from `k256`: whether a key and a signature are well
formed, and the check of a signature under a key. -/
structure EventVerifier where
  verifyingKey : Bytes32 → Bool
  signature : Bytes → Bool
  verify : Bytes32 → Bytes32 → Bytes → Bool

def verifyEventSignature (verifier : EventVerifier) (event : SignedEvent) :
    Except TypesError Unit :=
  if event.id.bytes = List.replicate 32 0 then .error (.invalidFormat "No ID")
  else if event.pubkey.bytes = List.replicate 32 0 then .error (.invalidFormat "No pubkey")
  else if event.sig = "" then .error (.invalidFormat "No signature")
  else if verifier.verifyingKey event.pubkey = false then
    .error (.invalidFormat "Invalid public key")
  else
    match Hex.decode event.sig with
    | none => .error (.invalidFormat "Invalid signature hex")
    | some bytes =>
      if verifier.signature bytes = false then .error (.invalidFormat "Invalid signature format")
      else if verifier.verify event.pubkey event.id bytes then .ok ()
      else .error (.invalidFormat "Signature verification failed")

theorem verifyEventSignature_ok {verifier : EventVerifier} {event : SignedEvent} {bytes : Bytes}
    (hid : event.id.bytes ≠ List.replicate 32 0) (hpubkey : event.pubkey.bytes ≠ List.replicate 32 0)
    (hsig : event.sig ≠ "") (hkey : verifier.verifyingKey event.pubkey = true)
    (hdecode : Hex.decode event.sig = some bytes) (hbytes : verifier.signature bytes = true)
    (hverify : verifier.verify event.pubkey event.id bytes = true) :
    verifyEventSignature verifier event = .ok () := by
  rw [verifyEventSignature, if_neg hid, if_neg hpubkey, if_neg hsig, hkey, if_neg (by decide),
    hdecode]
  dsimp only
  rw [hbytes, if_neg (by decide), hverify, if_pos rfl]

def invalid (e : TypesError) : CacheError := .invalidEvent e.display

def validateEvent (suite : SchnorrSuite) (verifier : EventVerifier) (event : CanonicalEvent) :
    Except CacheError Unit := do
  let pubkey ← (publicKeyFromHex event.pubkey).mapError invalid
  let expected := computeEventId suite pubkey event.createdAt (UInt16.ofNat event.kind) event.tags
    event.content
  if expected ≠ event.id then .error (.invalidEvent "event id mismatch")
  else do
    let id ← (eventIdFromHex event.id).mapError invalid
    (verifyEventSignature verifier {
      id := id
      pubkey := pubkey
      createdAt := event.createdAt
      kind := UInt16.ofNat event.kind
      tags := event.tags
      content := event.content
      sig := event.sig }).mapError invalid

/-- An event that is accepted: its numbers are a `u64` and a `u16`, and it is valid. -/
structure Accepted (suite : SchnorrSuite) (verifier : EventVerifier) (event : CanonicalEvent) :
    Prop where
  createdAt_lt : event.createdAt < 2 ^ 64
  kind_lt : event.kind < 2 ^ 16
  valid : validateEvent suite verifier event = .ok ()

/-! ### Writing -/

/-- A `WorkerMessage`, and its content when that is a `NostrEvent`. -/
structure EventMessage where
  subId : Option String
  url : Option String
  event : Option NostrEvent
  deriving DecidableEq

/-- What the cache answers to a subscription. -/
structure CacheResponse where
  subId : String
  payload : Option Bytes

/-- The `flatbuffers` package: a finished buffer, when the builder can hold the message, and
the readers of a message and of a response. -/
structure MeshBuffers where
  finish : EventMessage → Option Bytes
  root : Bytes → Option EventMessage
  rootResponse : Bytes → Option CacheResponse

/-- A finished buffer is below two gibibytes, and reads back. -/
structure MeshBuffers.Lawful (buffers : MeshBuffers) : Prop where
  reads : ∀ {message : EventMessage} {bytes : Bytes}, buffers.finish message = some bytes →
    buffers.root bytes = some message
  size : ∀ {message : EventMessage} {bytes : Bytes}, buffers.finish message = some bytes →
    bytes.length < 2 ^ 31

/-- `created_at as i32`. -/
@[irreducible] def asI32 (createdAt : ℕ) : ℤ := (createdAt : ℤ).bmod (2 ^ 32)

theorem asI32_eq (createdAt : ℕ) : asI32 createdAt =
    if (createdAt : ℤ) % 4294967296 < 2147483648 then (createdAt : ℤ) % 4294967296
    else (createdAt : ℤ) % 4294967296 - 4294967296 := by
  unfold asI32
  exact bmod_two_pow_32 _

/-- `build_worker_message`, before it is framed. -/
def buildWorkerMessage (event : CanonicalEvent) (subId source : String) : EventMessage where
  subId := some subId
  url := some source
  event := some {
    id := event.id
    pubkey := event.pubkey
    kind := UInt16.ofNat event.kind
    createdAt := asI32 event.createdAt
    tags := event.tags.map fun tag => ⟨some tag⟩
    content := event.content
    sig := event.sig }

def tagPersist : UInt8 := 0

/-- `cache_input::frame`. -/
def tagged (tag : UInt8) (inner : Bytes) : Bytes := tag :: frame inner

def split : Bytes → Option (UInt8 × Bytes)
  | tag :: rest =>
    if rest.length < 4 then none
    else if U32.ofLeBytes rest ≠ rest.length - 4 then none
    else some (tag, rest.drop 4)
  | [] => none

/-- What `persist` and `pin_profile` send. -/
def persistLine (buffers : MeshBuffers) (event : CanonicalEvent) (subId source : String) :
    Option Bytes :=
  (buffers.finish (buildWorkerMessage event subId source)).map (tagged tagPersist)

def stored (line : Bytes) : Option Bytes :=
  match split line with
  | some (tag, inner) => if tag = tagPersist then some inner else none
  | none => none

/-- The record is what is stored of the event. -/
def Persisted (buffers : MeshBuffers) (event : CanonicalEvent) (record : Bytes) : Prop :=
  ∃ subId source line, persistLine buffers event subId source = some line ∧
    stored line = some record

/-! ### Reading -/

def canonicalEvent (event : NostrEvent) : CanonicalEvent where
  id := event.id
  pubkey := event.pubkey
  createdAt := (max event.createdAt 0).toNat
  kind := event.kind.toNat
  tags := event.tags.map fun tag => tag.items.getD []
  content := event.content
  sig := event.sig

def decodeBatch (buffers : MeshBuffers) (payload : Bytes) (events : List CanonicalEvent) :
    Except CacheError (List CanonicalEvent) :=
  if payload = [] then .ok events
  else
    match hframe : takeFrame payload with
    | none => .error .invalidCacheResponse
    | some (record, rest) =>
      match buffers.root record with
      | none => .error .invalidCacheResponse
      | some message =>
        match message.event with
        | none => .error .invalidCacheRecord
        | some event =>
          have : rest.length < payload.length := takeFrame_shorter hframe
          decodeBatch buffers rest (events ++ [canonicalEvent event])
termination_by payload.length

/-- The loop of `query`, over what the channel answers. -/
def collect (buffers : MeshBuffers) (subId : String) :
    List Bytes → List CanonicalEvent → Except CacheError (List CanonicalEvent)
  | [], _ => .error .cacheChannelClosed
  | bytes :: rest, events =>
    match buffers.rootResponse bytes with
    | none => .error .invalidCacheResponse
    | some response =>
      if response.subId ≠ subId then .error (.unexpectedCacheResponse subId response.subId)
      else
        match response.payload with
        | none => .error .invalidCacheResponse
        | some payload =>
          if payload = [] then .ok events
          else
            match decodeBatch buffers payload events with
            | .error e => .error e
            | .ok events => collect buffers subId rest events

/-- The responses of the cache worker for some batches of stored messages: one for each batch,
and an empty one behind them. -/
def Answers (buffers : MeshBuffers) (subId : String) (batches : List (List Bytes))
    (responses : List Bytes) : Prop :=
  (∀ batch ∈ batches, batch ≠ []) ∧
    List.Forall₂ (fun batch bytes =>
      buffers.rootResponse bytes = some ⟨subId, some (frameLog batch)⟩) (batches ++ [[]]) responses

/-! ### What is read back -/

/-- The time that is read back: what 32 bits keep of it, and not negative. -/
def readTime (createdAt : ℕ) : ℕ := (max (asI32 createdAt) 0).toNat

def readBack (event : CanonicalEvent) : CanonicalEvent :=
  { event with createdAt := readTime event.createdAt }

theorem readTime_eq_iff (createdAt : ℕ) : readTime createdAt = createdAt ↔ createdAt < 2 ^ 31 := by
  rw [readTime, asI32_eq]
  by_cases hlow : (createdAt : ℤ) % 4294967296 < 2147483648
  · rw [if_pos hlow]
    omega
  · rw [if_neg hlow]
    omega

theorem readBack_eq_iff (event : CanonicalEvent) :
    readBack event = event ↔ event.createdAt < 2 ^ 31 := by
  rw [← readTime_eq_iff]
  refine ⟨fun h => congrArg CanonicalEvent.createdAt h, fun h => ?_⟩
  rw [readBack, h]

section Reading

variable {buffers : MeshBuffers} {suite : SchnorrSuite} {verifier : EventVerifier}

variable {event : CanonicalEvent}

theorem canonicalEvent_buildWorkerMessage (hkind : event.kind < 2 ^ 16)
    (subId source : String) : (buildWorkerMessage event subId source).event.map canonicalEvent =
      some (readBack event) := by
  have htags : (event.tags.map fun tag => (⟨some tag⟩ : StringVec)).map
      (fun tag => tag.items.getD []) = event.tags := by
    rw [map_map]
    exact map_id'' (fun _ => rfl) event.tags
  have hnat : (UInt16.ofNat event.kind).toNat = event.kind := by
    rw [UInt16.toNat_ofNat']
    exact Nat.mod_eq_of_lt hkind
  simp only [buildWorkerMessage, Option.map_some, canonicalEvent, readBack, readTime, hnat, htags]

theorem split_tagged {inner : Bytes} (h : inner.length < 2 ^ 32) (tag : UInt8) :
    split (tagged tag inner) = some (tag, inner) := by
  have hlength : (frame inner).length = 4 + inner.length := length_frame inner
  have hnumber : U32.ofLeBytes (frame inner) = inner.length := by
    have hframe := ofLeBytes_frameLog h []
    rwa [append_nil] at hframe
  have hinner : (frame inner).drop 4 = inner := drop_left' (U32.length_toLeBytes _)
  rw [tagged, split, if_neg (by omega), if_neg (not_not.mpr (by omega)), hinner]

theorem Persisted.reads (h : buffers.Lawful) {record : Bytes}
    (hrecord : Persisted buffers event record) :
    record.length < 2 ^ 31 ∧ ∃ subId source,
      buffers.root record = some (buildWorkerMessage event subId source) := by
  obtain ⟨subId, source, line, hline, hstored⟩ := hrecord
  obtain ⟨inner, hinner, rfl⟩ := Option.map_eq_some_iff.mp hline
  have hsize := h.size hinner
  rw [stored, split_tagged (by omega)] at hstored
  obtain rfl : inner = record := Option.some.inj hstored
  exact ⟨hsize, subId, source, h.reads hinner⟩

theorem decodeBatch_cons (h : buffers.Lawful)
    (hkind : event.kind < 2 ^ 16) {record : Bytes} (hrecord : Persisted buffers event record)
    (rest : Bytes) (events : List CanonicalEvent) :
    decodeBatch buffers (frame record ++ rest) events =
      decodeBatch buffers rest (events ++ [readBack event]) := by
  obtain ⟨hsize, subId, source, hroot⟩ := hrecord.reads h
  have htake : takeFrame (frame record ++ rest) = some (record, rest) :=
    takeFrame_frame (by omega) rest
  have hread := canonicalEvent_buildWorkerMessage hkind subId source
  obtain ⟨table, htable, hcanonical⟩ := Option.map_eq_some_iff.mp hread
  have hne : frame record ++ rest ≠ [] := fun hnil => by
    rw [hnil] at htake
    contradiction
  rw [decodeBatch, if_neg hne]
  split
  · next hnone =>
    rw [htake] at hnone
    contradiction
  · next record' rest' hsome =>
    rw [htake] at hsome
    obtain ⟨rfl, rfl⟩ := Prod.mk.inj (Option.some.inj hsome)
    simp only [hroot, htable, hcanonical]

theorem decodeBatch_nil (events : List CanonicalEvent) :
    decodeBatch buffers [] events = .ok events := by
  rw [decodeBatch, if_pos rfl]

theorem decodeBatch_frameLog (h : buffers.Lawful) {batch : List CanonicalEvent}
    {records : List Bytes} (hrecords : List.Forall₂ (Persisted buffers) batch records)
    (hkind : ∀ event ∈ batch, event.kind < 2 ^ 16) (events : List CanonicalEvent) :
    decodeBatch buffers (frameLog records) events = .ok (events ++ batch.map readBack) := by
  induction hrecords generalizing events with
  | nil => rw [frameLog_nil, decodeBatch_nil, map_nil, append_nil]
  | @cons event record batch records hrecord _ ih =>
    rw [frameLog_cons, decodeBatch_cons h (hkind event mem_cons_self) hrecord,
      ih fun event hevent => hkind event (mem_cons_of_mem _ hevent)]
    simp

/-- **What is read back of stored events**, whatever the batches are. -/
theorem collect_stored (h : buffers.Lawful) {batches : List (List CanonicalEvent)}
    {records : List (List Bytes)}
    (hrecords : List.Forall₂ (List.Forall₂ (Persisted buffers)) batches records)
    (hkind : ∀ event ∈ batches.flatten, event.kind < 2 ^ 16) {subId : String}
    {responses : List Bytes} (hanswers : Answers buffers subId records responses)
    (events : List CanonicalEvent) :
    collect buffers subId responses events = .ok (events ++ batches.flatten.map readBack) := by
  obtain ⟨hne, hresponses⟩ := hanswers
  induction hrecords generalizing events responses with
  | nil =>
    obtain ⟨last, rest, hlast, -, rfl⟩ := List.forall₂_cons_left_iff.mp hresponses
    rw [collect, hlast]
    simp
  | @cons batch record batches records hbatch _ ih =>
    obtain ⟨first, rest, hfirst, hrest, rfl⟩ := List.forall₂_cons_left_iff.mp hresponses
    have hpayload : frameLog record ≠ [] := fun hnil =>
      hne record mem_cons_self (frameLog_eq_nil_iff.mp hnil)
    rw [flatten_cons] at hkind ⊢
    have hdecoded := decodeBatch_frameLog h hbatch
      (fun event hevent => hkind event (mem_append_left _ hevent)) events
    rw [collect, hfirst]
    simp only [ne_eq, not_true_eq_false, if_false, if_neg hpayload, hdecoded]
    rw [ih (fun event hevent => hkind event (mem_append_right _ hevent))
      _ (fun record hrecord => hne record (mem_cons_of_mem _ hrecord)) hrest]
    simp

/-- **Events go through the cache of the mesh unchanged exactly when their times are below
`2 ^ 31`**; then they are valid at the next peer. -/
theorem meshRoundTrip_iff (h : buffers.Lawful) {batches : List (List CanonicalEvent)}
    (haccepted : ∀ event ∈ batches.flatten, Accepted suite verifier event)
    {records : List (List Bytes)}
    (hrecords : List.Forall₂ (List.Forall₂ (Persisted buffers)) batches records)
    {subId : String} {responses : List Bytes} (hanswers : Answers buffers subId records responses) :
    (collect buffers subId responses [] = .ok batches.flatten ∧
      ∀ events, collect buffers subId responses [] = .ok events →
        ∀ event ∈ events, validateEvent suite verifier event = .ok ()) ↔
      ∀ event ∈ batches.flatten, event.createdAt < 2 ^ 31 := by
  have hcollect := collect_stored h hrecords (fun event hevent => (haccepted event hevent).kind_lt)
    hanswers []
  rw [nil_append] at hcollect
  have hmap : batches.flatten.map readBack = batches.flatten ↔
      ∀ event ∈ batches.flatten, event.createdAt < 2 ^ 31 := by
    have hid : batches.flatten.map readBack = batches.flatten.map id ↔
        ∀ event ∈ batches.flatten, readBack event = id event := map_inj_left
    rw [map_id] at hid
    rw [hid]
    exact forall₂_congr fun event _ => readBack_eq_iff event
  rw [hcollect, ← hmap]
  constructor
  · rintro ⟨hsame, -⟩
    exact Except.ok.inj hsame
  · intro hsame
    refine ⟨congrArg Except.ok hsame, fun events hevents event hevent => ?_⟩
    rw [hsame] at hevents
    obtain rfl := Except.ok.inj hevents
    exact (haccepted event hevent).valid

end Reading

/-! ### Two profiles -/

/-- A profile with an empty object for a content, signed with the secret key 1; `time` is its
time as an `i32`. -/
structure SignedProfile where
  createdAt : ℕ
  time : Bytes
  id : Bytes32
  sig : Bytes

def profileKeyBytes : Bytes :=
  [121, 190, 102, 126, 249, 220, 187, 172, 85, 160, 98, 149, 206, 135, 11, 7, 2, 155, 252,
    219, 45, 206, 40, 217, 89, 242, 129, 91, 22, 248, 23, 152]

theorem length_profileKeyBytes : profileKeyBytes.length = 32 := rfl

def profileKey : Bytes32 := ⟨profileKeyBytes, length_profileKeyBytes⟩

namespace SignedProfile

variable (profile : SignedProfile)

def event : CanonicalEvent where
  id := profile.id.toHex
  pubkey := profileKey.toHex
  createdAt := profile.createdAt
  kind := 0
  tags := []
  content := "\x7b\x7d"
  sig := Hex.encode profile.sig

def suite : SchnorrSuite where
  sha256 := fun bytes =>
    if bytes = Utf8.encode (String.ofList
        (eventIdText profileKey profile.createdAt 0 [] "\x7b\x7d")) then profile.id
    else ⟨List.replicate 32 0, rfl⟩
  publicKey := fun _ => profileKey
  signingKey := fun _ => .ok ()
  signPrehash := fun _ _ => .ok profile.sig
  verifyPrehash := fun _ _ _ => .ok ()

def verifier : EventVerifier where
  verifyingKey := fun key => key = profileKey
  signature := fun bytes => bytes.length = 64
  verify := fun key id bytes => key = profileKey ∧ id = profile.id ∧ bytes = profile.sig

def record : Bytes :=
  [20, 0, 0, 0, 0, 0, 14, 0, 24, 0, 8, 0, 12, 0, 16, 0, 7, 0, 20, 0, 14, 0, 0, 0, 0, 0, 0,
    2, 32, 0, 0, 0, 12, 0, 0, 0, 9, 0, 0, 0, 56, 0, 0, 0, 10, 0, 0, 0, 98, 108, 101, 58,
    47, 47, 112, 101, 101, 114, 0, 0, 10, 0, 0, 0, 115, 97, 118, 101, 95, 116, 111, 95,
    100, 98, 0, 0, 0, 0, 18, 0, 28, 0, 4, 0, 8, 0, 0, 0, 12, 0, 16, 0, 20, 0, 24, 0, 18, 0,
    0, 0, 244, 0, 0, 0, 168, 0, 0, 0, 156, 0, 0, 0, 12, 0, 0, 0] ++ profile.time ++
  [8, 0, 0, 0, 0, 0, 0, 0, 128, 0, 0, 0] ++
    Utf8.encode (Hex.encode profile.sig) ++
  [0, 0, 0, 0, 2, 0, 0, 0, 123, 125, 0, 0, 64, 0, 0, 0] ++ Utf8.encode profileKey.toHex ++
  [0, 0, 0, 0, 64, 0, 0, 0] ++ Utf8.encode profile.id.toHex ++ [0, 0, 0, 0]

theorem length_record (htime : profile.time.length = 4) (hsig : profile.sig.length = 64) :
    profile.record.length = 416 := by
  have hhex : ∀ bytes : Bytes, (Utf8.encode (Hex.encode bytes)).length = 2 * bytes.length :=
    fun bytes => by rw [Utf8.length_encode_of_ascii (Hex.ascii_encode bytes), String.length_toList,
      Hex.length_encode]
  have hkey : (Utf8.encode profileKey.toHex).length = 64 := hhex profileKey.bytes
  have hid : (Utf8.encode profile.id.toHex).length = 64 := by
    have := hhex profile.id.bytes
    rwa [profile.id.size] at this
  simp only [record, length_append, length_cons, length_nil, htime, hhex, hsig, hkey,
    hid]

def response : Bytes :=
  [12, 0, 0, 0, 8, 0, 12, 0, 4, 0, 8, 0, 8, 0, 0, 0, 176, 1, 0, 0, 4, 0, 0, 0, 164, 1, 0, 0] ++
    frame profile.record ++
  [12, 0, 0, 0, 109, 101, 115, 104, 45, 99, 97, 99, 104, 101, 58, 48, 0, 0, 0, 0]

def lastResponse : Bytes :=
  [12, 0, 0, 0, 8, 0, 12, 0, 4, 0, 8, 0, 8, 0, 0, 0, 12, 0, 0, 0, 4, 0, 0, 0, 0, 0, 0, 0, 12, 0,
    0, 0, 109, 101, 115, 104, 45, 99, 97, 99, 104, 101, 58, 48, 0, 0, 0, 0]

def message : EventMessage := buildWorkerMessage profile.event "save_to_db" "ble://peer"

def buffers : MeshBuffers where
  finish := fun message => if message = profile.message then some profile.record else none
  root := fun bytes => if bytes = profile.record then some profile.message else none
  rootResponse := fun bytes =>
    if bytes = lastResponse then some ⟨"mesh-cache:0", some []⟩
    else if bytes = profile.response then some ⟨"mesh-cache:0", some (frameLog [profile.record])⟩
    else none

theorem lawful_buffers (h : profile.record.length < 2 ^ 31) : profile.buffers.Lawful where
  reads := by
    intro message bytes hfinish
    obtain ⟨rfl, hbytes⟩ := Option.ite_none_right_eq_some.mp hfinish
    obtain rfl := Option.some.inj hbytes
    simp only [buffers, if_true]
  size := by
    intro message bytes hfinish
    obtain ⟨-, hbytes⟩ := Option.ite_none_right_eq_some.mp hfinish
    obtain rfl := Option.some.inj hbytes
    exact h

theorem persisted_record (h : profile.record.length < 2 ^ 31) :
    Persisted profile.buffers profile.event profile.record := by
  refine ⟨"save_to_db", "ble://peer", tagged tagPersist profile.record, ?_, ?_⟩
  · have hfinish : profile.buffers.finish profile.message = some profile.record := by
      simp only [buffers, if_true]
    rw [persistLine]
    exact congrArg (Option.map (tagged tagPersist)) hfinish
  · rw [stored, split_tagged (by omega)]
    exact if_pos rfl

theorem response_ne : profile.response ≠ lastResponse := by
  intro h
  have hbyte : profile.response[16]? = lastResponse[16]? := by rw [h]
  rw [response, append_assoc, List.getElem?_append_left (by decide)] at hbyte
  exact absurd hbyte (by decide)

theorem answers_record : Answers profile.buffers "mesh-cache:0" [[profile.record]]
    [profile.response, lastResponse] := by
  refine ⟨fun batch hbatch => ?_, .cons ?_ (.cons ?_ .nil)⟩
  · rw [List.mem_singleton.mp hbatch]
    exact cons_ne_nil _ _
  · simp only [buffers, if_neg profile.response_ne, if_true]
  · simp only [buffers, if_true, frameLog_nil]

theorem accepted_event (hcreatedAt : profile.createdAt < 2 ^ 64) (hsig : profile.sig.length = 64)
    (hid : profile.id.bytes ≠ List.replicate 32 0) :
    Accepted profile.suite profile.verifier profile.event where
  createdAt_lt := hcreatedAt
  kind_lt := Nat.two_pow_pos 16
  valid := by
    have hpubkey : publicKeyFromHex profile.event.pubkey = .ok profileKey :=
      fromHex_eq_ok_iff.mpr (Hex.decode_encode profileKey.bytes)
    have hidHex : eventIdFromHex profile.event.id = .ok profile.id :=
      fromHex_eq_ok_iff.mpr (Hex.decode_encode profile.id.bytes)
    have hhash : profile.suite.sha256 (Utf8.encode (String.ofList
        (eventIdText profileKey profile.createdAt 0 [] "\x7b\x7d"))) = profile.id := by
      simp only [suite, if_true]
    have hcomputed : computeEventId profile.suite profileKey profile.event.createdAt
        (UInt16.ofNat profile.event.kind) profile.event.tags profile.event.content =
          profile.event.id := congrArg Bytes32.toHex hhash
    have hkey : profileKey.bytes ≠ List.replicate 32 0 := by decide
    have hsigHex : Hex.decode (Hex.encode profile.sig) = some profile.sig :=
      Hex.decode_encode profile.sig
    have hsigText : Hex.encode profile.sig ≠ "" := by
      intro hempty
      rw [hempty] at hsigHex
      have hnil : profile.sig = [] := (Option.some.inj hsigHex).symm
      rw [hnil] at hsig
      contradiction
    have hverify : verifyEventSignature profile.verifier {
        id := profile.id
        pubkey := profileKey
        createdAt := profile.event.createdAt
        kind := UInt16.ofNat profile.event.kind
        tags := profile.event.tags
        content := profile.event.content
        sig := profile.event.sig } = .ok () := by
      have hwellKey : profile.verifier.verifyingKey profileKey = true :=
        decide_eq_true (show profileKey = profileKey from rfl)
      have hwellSig : profile.verifier.signature profile.sig = true := decide_eq_true hsig
      have hsigned : profile.verifier.verify profileKey profile.id profile.sig = true :=
        decide_eq_true ⟨rfl, rfl, rfl⟩
      exact verifyEventSignature_ok hid hkey hsigText hwellKey hsigHex hwellSig hsigned
    have hkeyRead : (publicKeyFromHex profile.event.pubkey).mapError invalid = .ok profileKey := by
      rw [hpubkey]
      rfl
    have hidRead : (eventIdFromHex profile.event.id).mapError invalid = .ok profile.id := by
      rw [hidHex]
      rfl
    rw [validateEvent]
    refine Result.bind_eq_ok.mpr ⟨profileKey, hkeyRead, ?_⟩
    dsimp only
    rw [hcomputed, if_neg (not_not.mpr rfl)]
    refine Result.bind_eq_ok.mpr ⟨profile.id, hidRead, ?_⟩
    rw [hverify]
    rfl

end SignedProfile

def earlyProfile : SignedProfile where
  createdAt := 7
  time := [7, 0, 0, 0]
  id := ⟨[183, 80, 226, 243, 58, 217, 148, 21, 112, 74, 122, 71, 137, 227, 245, 39, 58, 88, 176,
    34, 136, 99, 253, 45, 136, 47, 211, 194, 111, 208, 130, 189], rfl⟩
  sig := [25, 198, 98, 190, 254, 155, 50, 88, 108, 26, 79, 52, 91, 93, 240, 185, 181, 126, 119,
    168, 186, 167, 193, 6, 131, 107, 67, 151, 224, 35, 78, 250, 11, 226, 84, 75, 193, 249,
    37, 30, 198, 126, 150, 109, 75, 176, 182, 110, 10, 187, 1, 120, 213, 76, 87, 126, 148,
    218, 61, 76, 24, 8, 166, 29]

/-- The profile of the first second that an `i32` has not. -/
def lateProfile : SignedProfile where
  createdAt := 2147483648
  time := [0, 0, 0, 128]
  id := ⟨[59, 188, 137, 27, 29, 123, 208, 244, 46, 150, 79, 61, 22, 90, 245, 144, 144, 95, 134,
    219, 211, 48, 32, 58, 167, 121, 126, 13, 190, 250, 163, 157], rfl⟩
  sig := [131, 75, 210, 26, 116, 118, 221, 89, 246, 109, 132, 179, 231, 110, 115, 50, 226, 142,
    162, 193, 74, 51, 210, 193, 15, 220, 189, 25, 205, 243, 61, 188, 102, 243, 28, 244, 18,
    28, 7, 191, 254, 109, 3, 232, 189, 175, 104, 127, 18, 207, 158, 151, 36, 247, 238, 124,
    104, 42, 84, 86, 40, 16, 26, 162]

theorem length_earlyRecord : earlyProfile.record.length < 2 ^ 31 := by
  rw [earlyProfile.length_record rfl rfl]
  norm_num

theorem length_lateRecord : lateProfile.record.length < 2 ^ 31 := by
  rw [lateProfile.length_record rfl rfl]
  norm_num

theorem meshRoundTrip_early :
    collect earlyProfile.buffers "mesh-cache:0" [earlyProfile.response, SignedProfile.lastResponse]
      [] = .ok [earlyProfile.event] := by
  have htime : earlyProfile.createdAt < 2 ^ 31 := by
    show 7 < 2 ^ 31
    norm_num
  have haccepted : ∀ event ∈ [[earlyProfile.event]].flatten,
      Accepted earlyProfile.suite earlyProfile.verifier event := by
    intro event hevent
    rw [List.mem_singleton.mp hevent]
    have hcreatedAt : earlyProfile.createdAt < 2 ^ 64 := htime.trans (by norm_num)
    exact earlyProfile.accepted_event hcreatedAt rfl (by decide)
  have htimes : ∀ event ∈ [[earlyProfile.event]].flatten, event.createdAt < 2 ^ 31 := by
    intro event hevent
    rw [List.mem_singleton.mp hevent]
    exact htime
  have hrecords : List.Forall₂ (List.Forall₂ (Persisted earlyProfile.buffers))
      [[earlyProfile.event]] [[earlyProfile.record]] :=
    .cons (.cons (earlyProfile.persisted_record length_earlyRecord) .nil) .nil
  exact ((meshRoundTrip_iff (earlyProfile.lawful_buffers length_earlyRecord) haccepted hrecords
    earlyProfile.answers_record).mpr htimes).1

/-- **The late profile is accepted and stored, and another event comes back.** -/
theorem lateProfile_changed :
    Accepted lateProfile.suite lateProfile.verifier lateProfile.event ∧
      Persisted lateProfile.buffers lateProfile.event lateProfile.record ∧
      collect lateProfile.buffers "mesh-cache:0" [lateProfile.response, SignedProfile.lastResponse]
        [] = .ok [{ lateProfile.event with createdAt := 0 }] ∧
      { lateProfile.event with createdAt := 0 } ≠ lateProfile.event := by
  have hrecord := lateProfile.persisted_record length_lateRecord
  have hrecords : List.Forall₂ (List.Forall₂ (Persisted lateProfile.buffers))
      [[lateProfile.event]] [[lateProfile.record]] := .cons (.cons hrecord .nil) .nil
  have hkinds : ∀ event ∈ [[lateProfile.event]].flatten, event.kind < 2 ^ 16 := by
    intro event hevent
    rw [List.mem_singleton.mp hevent]
    exact Nat.two_pow_pos 16
  have hcreatedAt : lateProfile.createdAt < 2 ^ 64 := by
    show 2147483648 < 2 ^ 64
    norm_num
  have htime : readTime lateProfile.event.createdAt = 0 := by
    show readTime 2147483648 = 0
    rw [readTime, asI32_eq]
    norm_num
  refine ⟨lateProfile.accepted_event hcreatedAt rfl (by decide), hrecord, ?_, ?_⟩
  · rw [collect_stored (lateProfile.lawful_buffers length_lateRecord) hrecords hkinds
      lateProfile.answers_record []]
    show Except.ok [readBack lateProfile.event] = _
    rw [readBack, htime]
  · intro hsame
    have hzero : 0 = 2147483648 := congrArg CanonicalEvent.createdAt hsame
    omega

end MeshCache

end Nipworker
