/-
Framing of complete messages for BLE writes (`crates/mesh/src/framing.rs`).

A message is cut into fragments that fit one write; each carries a 17-byte
header with the message it belongs to, its place in it, the number of fragments
and the length of the message.  The other side collects the fragments of
several messages at once, in any order, under bounds on the size of a message,
on the number of unfinished messages, on the bytes held for them and on their
age.

Byte counts and lengths are `usize` in the source and natural numbers here; the
narrowing casts into the header are kept.  An `Instant` is a number of ticks,
and `saturating_duration_since` is truncated subtraction.
-/
import Nipworker.Lib.Map
import Nipworker.Lib.Wire

namespace Nipworker

open List

/-- `MeshError`, with the text its variants carry. -/
inductive MeshError
  | invalidEventId (id : String)
  | invalidFrame
  | negentropy (text : String)
  | json
  | unknownSession (subscriptionId : String)
  | unexpectedSessionMessage (kind : String)
  | frame (text : String)
  deriving DecidableEq, Repr

def magic : Bytes := [0x4e, 0x4d]

def version : UInt8 := 1

def headerLen : ℕ := 17

/-- A piece of a message. -/
structure Fragment where
  messageId : UInt32
  index : UInt16
  count : UInt16
  totalLen : UInt32
  payload : Bytes
  deriving DecidableEq, Repr

namespace Fragment

/-- `Fragment::encode`; the length of the payload is cast to `u16`. -/
def encode (fragment : Fragment) : Bytes :=
  magic ++ [version]
    ++ beBytes 4 fragment.messageId.toNat
    ++ beBytes 2 fragment.index.toNat
    ++ beBytes 2 fragment.count.toNat
    ++ beBytes 4 fragment.totalLen.toNat
    ++ beBytes 2 (UInt16.ofNat fragment.payload.length).toNat
    ++ fragment.payload

/-- `bytes[i..j]`. -/
def slice (bytes : Bytes) (i j : ℕ) : Bytes := (bytes.drop i).take (j - i)

def decode (bytes : Bytes) : Except MeshError Fragment :=
  if bytes.length < headerLen ∨ bytes.take 2 ≠ magic ∨ bytes[2]? ≠ some version then
    .error (.frame "invalid header")
  else
    let messageId := UInt32.ofNat (ofBeBytes (slice bytes 3 7))
    let index := UInt16.ofNat (ofBeBytes (slice bytes 7 9))
    let count := UInt16.ofNat (ofBeBytes (slice bytes 9 11))
    let totalLen := UInt32.ofNat (ofBeBytes (slice bytes 11 15))
    let payloadLen := ofBeBytes (slice bytes 15 17)
    if count = 0 ∨ index ≥ count ∨ bytes.length ≠ headerLen + payloadLen then
      .error (.frame "invalid fragment metadata")
    else .ok ⟨messageId, index, count, totalLen, bytes.drop headerLen⟩

theorem length_encode (fragment : Fragment) :
    fragment.encode.length = headerLen + fragment.payload.length := by
  simp only [encode, magic, headerLen, length_append, length_cons, length_nil,
    length_beBytes]

/-- What `decode` makes of an encoded fragment: it reads the header back and
then compares the length of the payload with its 16-bit field. -/
theorem decode_encode_eq (fragment : Fragment) :
    decode fragment.encode
      = if fragment.count = 0 ∨ fragment.index ≥ fragment.count
            ∨ fragment.payload.length ≠ fragment.payload.length % 2 ^ 16 then
          .error (.frame "invalid fragment metadata")
        else .ok fragment := by
  have hlen := length_encode fragment
  have hid : ofBeBytes (slice fragment.encode 3 7) = fragment.messageId.toNat % 256 ^ 4 :=
    ofBeBytes_beBytes 4 _
  have hindex : ofBeBytes (slice fragment.encode 7 9) = fragment.index.toNat % 256 ^ 2 :=
    ofBeBytes_beBytes 2 _
  have hcount : ofBeBytes (slice fragment.encode 9 11) = fragment.count.toNat % 256 ^ 2 :=
    ofBeBytes_beBytes 2 _
  have htotal : ofBeBytes (slice fragment.encode 11 15) = fragment.totalLen.toNat % 256 ^ 4 :=
    ofBeBytes_beBytes 4 _
  have hpayload : ofBeBytes (slice fragment.encode 15 17)
      = (UInt16.ofNat fragment.payload.length).toNat % 256 ^ 2 :=
    ofBeBytes_beBytes 2 _
  have hdrop : fragment.encode.drop headerLen = fragment.payload := rfl
  have hheader : ¬ (fragment.encode.length < headerLen ∨ fragment.encode.take 2 ≠ magic
      ∨ fragment.encode[2]? ≠ some version) := by
    rintro (h | h | h)
    · omega
    · exact h rfl
    · exact h rfl
  -- every field is below the bound of its type, so only the payload length is cut
  have hmodId := Nat.mod_eq_of_lt (show fragment.messageId.toNat < 256 ^ 4 from
    fragment.messageId.toNat_lt)
  have hmodIndex := Nat.mod_eq_of_lt (show fragment.index.toNat < 256 ^ 2 from
    fragment.index.toNat_lt)
  have hmodCount := Nat.mod_eq_of_lt (show fragment.count.toNat < 256 ^ 2 from
    fragment.count.toNat_lt)
  have hmodTotal := Nat.mod_eq_of_lt (show fragment.totalLen.toNat < 256 ^ 4 from
    fragment.totalLen.toNat_lt)
  have hmodPayload : (UInt16.ofNat fragment.payload.length).toNat % 256 ^ 2
      = fragment.payload.length % 2 ^ 16 := by
    rw [UInt16.toNat_ofNat']
    exact Nat.mod_mod _ _
  rw [decode, if_neg hheader, hid, hindex, hcount, htotal, hpayload, hdrop, hmodId, hmodIndex,
    hmodCount, hmodTotal, hmodPayload, hlen]
  simp only [UInt32.ofNat_toNat, UInt16.ofNat_toNat, ne_eq, Nat.add_left_cancel_iff]

/-- A fragment whose payload length fits its 16-bit field reads back. -/
theorem decode_encode {fragment : Fragment} (hindex : fragment.index < fragment.count)
    (hpayload : fragment.payload.length < 2 ^ 16) :
    decode fragment.encode = .ok fragment := by
  rw [decode_encode_eq, if_neg]
  rintro (h | h | h)
  · rw [h] at hindex
    exact UInt16.not_lt_zero hindex
  · exact absurd hindex (UInt16.not_lt.mpr h)
  · exact h (Nat.mod_eq_of_lt hpayload).symm

/-- A longer payload makes the fragment unreadable. -/
theorem decode_encode_oversized {fragment : Fragment}
    (hpayload : 2 ^ 16 ≤ fragment.payload.length) :
    decode fragment.encode = .error (.frame "invalid fragment metadata") := by
  rw [decode_encode_eq, if_pos]
  right; right
  have := Nat.mod_lt fragment.payload.length (show 0 < 2 ^ 16 by decide)
  omega

end Fragment

/-- The counter of messages, and their greatest size. -/
structure Fragmenter where
  nextMessageId : UInt32
  maxMessageSize : ℕ
  deriving DecidableEq, Repr

namespace Fragmenter

def new (maxMessageSize : ℕ) : Fragmenter := ⟨1, maxMessageSize⟩

def fragments (messageId : UInt32) (message : Bytes) (payloadSize : ℕ) : List Fragment :=
  (chunks payloadSize message).mapIdx fun index payload =>
    { messageId
      index := UInt16.ofNat index
      count := UInt16.ofNat (divCeil message.length payloadSize)
      totalLen := UInt32.ofNat message.length
      payload }

def fragment (self : Fragmenter) (message : Bytes) (mtu : ℕ) :
    Except MeshError (List Bytes × Fragmenter) :=
  if message = [] ∨ message.length > self.maxMessageSize then
    .error (.frame "message size outside limits")
  -- `checked_sub` fails below the header length, the filter drops a payload size of zero
  else if mtu ≤ headerLen then .error (.frame "MTU too small")
  else
    let payloadSize := mtu - headerLen
    if divCeil message.length payloadSize > 65535 then .error (.frame "too many fragments")
    else
      .ok ((fragments self.nextMessageId message payloadSize).map Fragment.encode,
        { self with nextMessageId := max (self.nextMessageId + 1) 1 })

variable {self' : Fragmenter}

/-- What `fragment` accepts and what it returns. -/
theorem fragment_eq_ok {self : Fragmenter} {message : Bytes} {mtu : ℕ} {frames : List Bytes}
    (h : self.fragment message mtu = .ok (frames, self')) :
    message ≠ [] ∧ message.length ≤ self.maxMessageSize ∧ headerLen < mtu
      ∧ divCeil message.length (mtu - headerLen) ≤ 65535
      ∧ frames = (fragments self.nextMessageId message (mtu - headerLen)).map Fragment.encode
      ∧ self' = { self with nextMessageId := max (self.nextMessageId + 1) 1 } := by
  unfold fragment at h
  split at h
  · cases h
  · next hsize =>
    split at h
    · cases h
    · next hmtu =>
      dsimp only at h
      split at h
      · cases h
      · next hcount =>
        cases h
        refine ⟨fun hnil => hsize (.inl hnil), ?_, ?_, ?_, rfl, rfl⟩
        · by_contra hlong
          exact hsize (.inr (by omega))
        · omega
        · omega

/-- `fragment` on one message after the other, each with the MTU of the moment. -/
def fragmentAll (self : Fragmenter) :
    List (Bytes × ℕ) → Except MeshError (List (List Bytes) × Fragmenter)
  | [] => .ok ([], self)
  | (message, mtu) :: rest => do
    let (frames, self) ← self.fragment message mtu
    let (more, self) ← self.fragmentAll rest
    return (frames :: more, self)

theorem fragmentAll_cons {self : Fragmenter} {message : Bytes} {mtu : ℕ}
    {rest : List (Bytes × ℕ)} {all : List (List Bytes)}
    (h : self.fragmentAll ((message, mtu) :: rest) = .ok (all, self')) :
    ∃ frames more next, self.fragment message mtu = .ok (frames, next)
      ∧ next.fragmentAll rest = .ok (more, self') ∧ all = frames :: more := by
  simp only [fragmentAll, bind, Except.bind, pure, Except.pure] at h
  split at h
  · cases h
  · next first hfirst =>
    split at h
    · cases h
    · next second hsecond =>
      cases h
      exact ⟨_, _, _, hfirst, hsecond, rfl⟩

theorem length_fragments (id : UInt32) (message : Bytes) (size : ℕ) :
    (fragments id message size).length = divCeil message.length size := by
  rw [fragments, length_mapIdx, length_chunks]

/-- What one `Fragmenter` makes of a list of messages it accepts: as long as
its ids do not wrap, message `k` has the `k`-th id. -/
theorem fragmentAll_spec {self : Fragmenter} {messages : List (Bytes × ℕ)}
    {all : List (List Bytes)} (h : self.fragmentAll messages = .ok (all, self'))
    (hids : self.nextMessageId.toNat + messages.length ≤ 2 ^ 32) :
    all.length = messages.length ∧ ∀ k message mtu, messages[k]? = some (message, mtu) →
      message ≠ [] ∧ headerLen < mtu ∧ divCeil message.length (mtu - headerLen) ≤ 65535
        ∧ all[k]? = some ((fragments (UInt32.ofNat (self.nextMessageId.toNat + k)) message
            (mtu - headerLen)).map Fragment.encode) := by
  induction messages generalizing self all with
  | nil =>
    cases h
    exact ⟨rfl, fun k message mtu hk => by simp at hk⟩
  | cons head rest ih =>
    obtain ⟨message, mtu⟩ := head
    obtain ⟨frames, more, next, hfirst, hrest, rfl⟩ := fragmentAll_cons h
    obtain ⟨hne, -, hmtu, hcount, rfl, rfl⟩ := fragment_eq_ok hfirst
    have hlt := self.nextMessageId.toNat_lt
    -- the next id is the successor, unless there is no further message to use it
    have hnext : 0 < rest.length → (max (self.nextMessageId + 1) 1).toNat
        = self.nextMessageId.toNat + 1 := by
      intro hpos
      rw [length_cons] at hids
      have hadd : (self.nextMessageId + 1).toNat = self.nextMessageId.toNat + 1 := by
        rw [UInt32.toNat_add]
        exact Nat.mod_eq_of_lt (by show _ + 1 < 2 ^ 32; omega)
      show (if self.nextMessageId + 1 ≤ 1 then 1 else self.nextMessageId + 1).toNat = _
      by_cases hle : self.nextMessageId + 1 ≤ 1
      · have hone : (self.nextMessageId + 1).toNat ≤ 1 := UInt32.le_iff_toNat_le.mp hle
        rw [if_pos hle]
        show 1 = _
        omega
      · rw [if_neg hle, hadd]
    rcases Nat.eq_zero_or_pos rest.length with hzero | hpos
    · obtain rfl := eq_nil_of_length_eq_zero hzero
      cases hrest
      refine ⟨rfl, ?_⟩
      rintro (_ | k) message' mtu' hk
      · cases hk
        exact ⟨hne, hmtu, hcount, by rw [Nat.add_zero, UInt32.ofNat_toNat]; rfl⟩
      · simp at hk
    · obtain ⟨hlen, hall⟩ := ih hrest (by
        show (max (self.nextMessageId + 1) 1).toNat + rest.length ≤ 2 ^ 32
        rw [hnext hpos]
        rw [length_cons] at hids
        omega)
      refine ⟨by rw [length_cons, hlen, length_cons], ?_⟩
      rintro (_ | k) message' mtu' hk
      · cases hk
        exact ⟨hne, hmtu, hcount, by rw [Nat.add_zero, UInt32.ofNat_toNat]; rfl⟩
      · obtain ⟨h1, h2, h3, h4⟩ := hall k message' mtu' (by simpa using hk)
        refine ⟨h1, h2, h3, ?_⟩
        rw [List.getElem?_cons_succ, h4]
        show some (List.map _ (fragments (UInt32.ofNat
          ((max (self.nextMessageId + 1) 1).toNat + k)) _ _)) = _
        rw [hnext hpos, Nat.add_assoc, Nat.add_comm 1 k]

end Fragmenter

/-- A message that is not yet complete. -/
structure Assembly where
  createdAt : ℕ
  totalLen : ℕ
  fragments : List (Option Bytes)
  receivedBytes : ℕ
  deriving DecidableEq, Repr

def Assembly.put (self : Assembly) (index : ℕ) (payload : Bytes) : Assembly :=
  { self with
    receivedBytes := self.receivedBytes + payload.length
    fragments := self.fragments.set index (some payload) }

/-- The messages under way, by their ids. -/
structure Reassembler where
  assemblies : Map UInt32 Assembly
  timeout : ℕ
  maxMessageSize : ℕ
  maxInflightMessages : ℕ
  inflightBytes : ℕ
  maxInflightBytes : ℕ

namespace Reassembler

def new (timeout maxMessageSize maxInflightMessages maxInflightBytes : ℕ) : Reassembler :=
  ⟨∅, timeout, maxMessageSize, maxInflightMessages, 0, maxInflightBytes⟩

def drop (self : Reassembler) (id : UInt32) : Reassembler :=
  match self.assemblies.lookup id with
  | some assembly =>
    { self with
      assemblies := self.assemblies.erase id
      inflightBytes := self.inflightBytes - assembly.receivedBytes }
  | none => self

/-- The ids of the assemblies that have reached the timeout. -/
def expired (self : Reassembler) (now : ℕ) : List UInt32 :=
  (self.assemblies.entries.filter fun entry => now - entry.2.createdAt ≥ self.timeout).map (·.1)

/-- `Reassembler::prune`; the number of forgotten assemblies it returns is the
length of `expired`. -/
def prune (self : Reassembler) (now : ℕ) : Reassembler :=
  (self.expired now).foldl drop self

/-- The assembly of the fragment's message, opened when it is its first one. -/
def assemblyFor (self : Reassembler) (fragment : Fragment) (now : ℕ) :
    Except MeshError Assembly :=
  match self.assemblies.lookup fragment.messageId with
  | some assembly => .ok assembly
  | none =>
    if self.assemblies.keys.length ≥ self.maxInflightMessages then
      .error (.frame "too many inflight messages")
    else .ok ⟨now, fragment.totalLen.toNat, List.replicate fragment.count.toNat none, 0⟩

def store (self : Reassembler) (id : UInt32) (assembly : Assembly) : Reassembler :=
  { self with assemblies := self.assemblies.insert id assembly }

/-- The end of `push`, with the payload in its slot: take the message out when
no slot is left. -/
def finish (self : Reassembler) (id : UInt32) (assembly : Assembly) :
    Except MeshError (Option Bytes) × Reassembler :=
  if none ∈ assembly.fragments then (.ok none, self)
  else if assembly.receivedBytes ≠ assembly.totalLen then
    (.error (.frame "reassembled size mismatch"), self)
  else
    (.ok (some (assembly.fragments.flatMap fun part => part.getD [])),
      { self with
        assemblies := self.assemblies.erase id
        inflightBytes := self.inflightBytes - assembly.receivedBytes })

/-- The part of `push` after the assembly is found: check the header against it
and put the payload into its slot. -/
def fill (self : Reassembler) (fragment : Fragment) (assembly : Assembly) :
    Except MeshError (Option Bytes) × Reassembler :=
  let opened := self.store fragment.messageId assembly
  if assembly.totalLen ≠ fragment.totalLen.toNat
      ∨ assembly.fragments.length ≠ fragment.count.toNat then
    (.error (.frame "inconsistent fragment stream"), opened)
  else
    match assembly.fragments.getD fragment.index.toNat none with
    | some existing =>
      if existing ≠ fragment.payload then
        (.error (.frame "conflicting duplicate fragment"), opened)
      else (.ok none, opened)
    | none =>
      if self.inflightBytes + fragment.payload.length > self.maxInflightBytes then
        (.error (.frame "inflight byte limit exceeded"), opened)
      else
        let filled := assembly.put fragment.index.toNat fragment.payload
        finish
          { opened.store fragment.messageId filled with
            inflightBytes := self.inflightBytes + fragment.payload.length }
          fragment.messageId filled

/-- `Reassembler::push`; an error keeps what was done before it. -/
def push (self : Reassembler) (bytes : Bytes) (now : ℕ) :
    Except MeshError (Option Bytes) × Reassembler :=
  let self := self.prune now
  match Fragment.decode bytes with
  | .error e => (.error e, self)
  | .ok fragment =>
    if fragment.totalLen.toNat = 0 ∨ fragment.totalLen.toNat > self.maxMessageSize then
      (.error (.frame "declared message size outside limits"), self)
    else
      match self.assemblyFor fragment now with
      | .error e => (.error e, self)
      | .ok assembly => self.fill fragment assembly

/-- `push` on one write after the other: what each push returns, and the
reassembler at the end. -/
def pushAll (self : Reassembler) :
    List (Bytes × ℕ) → List (Except MeshError (Option Bytes)) × Reassembler
  | [] => ([], self)
  | (bytes, now) :: rest =>
    let (result, self) := self.push bytes now
    let (results, self) := self.pushAll rest
    (result :: results, self)

end Reassembler

end Nipworker
