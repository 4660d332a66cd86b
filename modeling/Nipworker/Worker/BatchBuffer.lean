/-
Batching of frames per subscription (`worker/batch_buffer.rs`).

Live events are collected per subscription and sent as one payload of
length-prefixed frames, when the buffer reaches 16 KB or when its first frame
is 8 ms old.
-/
import Nipworker.Lib.Map
import Nipworker.Lib.Utf8

namespace Nipworker

open List

def batchSizeThreshold : ℕ := 16 * 1024

def batchTimeoutMs : ℕ := 8

/-! ### Tagged frames -/

def encodeTagged (subId : String) (data : Bytes) : Bytes :=
  U32.toLeBytes (Utf8.encode subId).length ++ Utf8.encode subId ++ data

def decodeTagged (bytes : Bytes) : Option (String × Bytes) :=
  if bytes.length < 4 then none
  else
    let subLen := U32.ofLeBytes bytes
    if bytes.length < 4 + subLen then none
    else some (Utf8.decodeLossy ((bytes.drop 4).take subLen), bytes.drop (4 + subLen))

/-- A frame of length zero or one that does not fit ends the decoding. -/
def decodeTaggedBatch (bytes : Bytes) : List (String × Bytes) :=
  match hframe : takeFrame bytes with
  | none => []
  | some (tagged, rest) =>
    if tagged = [] then []
    else
      have : rest.length < bytes.length := takeFrame_shorter hframe
      (decodeTagged tagged).toList ++ decodeTaggedBatch rest
termination_by bytes.length

/-! ### The buffers -/

/-- The messages of a subscription, and the time of the first. -/
structure BatchBuffer where
  buf : Bytes
  firstAt : ℕ
  deriving DecidableEq

namespace BatchBuffer

def new : BatchBuffer := { buf := [], firstAt := 0 }

def addFrame (b : BatchBuffer) (frame : Bytes) (now : ℕ) : BatchBuffer × Option Bytes :=
  let full : Bool := b.buf ≠ [] ∧ b.buf.length + frame.length > batchSizeThreshold
  let pending := if full then some b.buf else none
  let buf := if full then [] else b.buf
  let firstAt := if buf = [] then now else b.firstAt
  let buf := buf ++ frame
  if buf.length ≥ batchSizeThreshold then ({ buf := [], firstAt := firstAt }, some buf)
  else ({ buf := buf, firstAt := firstAt }, pending)

def timedOut (b : BatchBuffer) (now : ℕ) : Bool :=
  b.buf ≠ [] ∧ now - b.firstAt ≥ batchTimeoutMs

def take (b : BatchBuffer) : Option Bytes := if b.buf = [] then none else some b.buf

end BatchBuffer

/-- The buffers, by their subscriptions. -/
structure BatchBufferManager where
  buffers : Map String BatchBuffer

namespace BatchBufferManager

def new : BatchBufferManager := { buffers := ∅ }

def residual (m : BatchBufferManager) (subId : String) : Bytes :=
  ((m.buffers.lookup subId).getD BatchBuffer.new).buf

def messageFrame (subId : String) (data : Bytes) : Bytes := frame (encodeTagged subId data)

def addMessage (m : BatchBufferManager) (subId : String) (data : Bytes) (now : ℕ) :
    BatchBufferManager × Option Bytes :=
  let b := (m.buffers.lookup subId).getD BatchBuffer.new
  let (b, payload) := b.addFrame (messageFrame subId data) now
  ({ buffers := m.buffers.insert subId b }, payload)

def flushSub (m : BatchBufferManager) (subId : String) : BatchBufferManager × Option Bytes :=
  match m.buffers.lookup subId with
  | none => (m, none)
  | some b =>
    match b.take with
    | none => (m, none)
    | some payload => ({ buffers := m.buffers.erase subId }, some payload)

def flushSubs (m : BatchBufferManager) : List String → BatchBufferManager × List Bytes
  | [] => (m, [])
  | subId :: rest =>
    let (m, payload) := m.flushSub subId
    let (m, payloads) := m.flushSubs rest
    (m, payload.toList ++ payloads)

/-- `BatchBufferManager::drain_timed_out`, walking the table in some order. -/
def drainTimedOut (m : BatchBufferManager) (iter : IterOrder String) (now : ℕ) :
    BatchBufferManager × List Bytes :=
  m.flushSubs ((iter.order m.buffers.keys).filter fun subId =>
    (m.buffers.lookup subId).any fun b => b.timedOut now)

end BatchBufferManager

/-! ### Payloads decode to the messages framed in them -/

theorem decodeTagged_encodeTagged {subId : String} {data : Bytes}
    (hfits : (encodeTagged subId data).length < 2 ^ 32) :
    decodeTagged (encodeTagged subId data) = some (subId, data) := by
  have hlen : (encodeTagged subId data).length
      = 4 + (Utf8.encode subId).length + data.length := by
    simp only [encodeTagged, length_append, U32.length_toLeBytes]
  have hnum : U32.ofLeBytes (encodeTagged subId data) = (Utf8.encode subId).length := by
    rw [encodeTagged, append_assoc, U32.ofLeBytes_toLeBytes (by omega)]
  have hdrop : (encodeTagged subId data).drop 4 = Utf8.encode subId ++ data := by
    rw [encodeTagged, append_assoc]
    exact drop_left' (U32.length_toLeBytes _)
  unfold decodeTagged
  rw [if_neg (by omega), hnum]
  dsimp only
  rw [if_neg (by omega), hdrop, take_left' rfl, ← drop_drop, hdrop,
    drop_left' rfl, Utf8.decodeLossy_encode]

def batch (subId : String) (msgs : List Bytes) : Bytes :=
  msgs.flatMap (BatchBufferManager.messageFrame subId)

variable (subId : String)

theorem batch_append (xs ys : List Bytes) :
    batch subId (xs ++ ys) = batch subId xs ++ batch subId ys :=
  flatMap_append

theorem batch_singleton (data : Bytes) :
    batch subId [data] = BatchBufferManager.messageFrame subId data := by
  rw [batch, flatMap_cons, flatMap_nil, append_nil]

theorem length_messageFrame (data : Bytes) :
    8 ≤ (BatchBufferManager.messageFrame subId data).length := by
  rw [BatchBufferManager.messageFrame, length_frame, encodeTagged, length_append,
    length_append, U32.length_toLeBytes]
  omega

theorem batch_eq_nil {subId : String} {msgs : List Bytes} : batch subId msgs = [] ↔ msgs = [] := by
  constructor
  · intro h
    cases msgs with
    | nil => rfl
    | cons data rest =>
      have hlen := congrArg List.length h
      have hframe := length_messageFrame subId data
      rw [batch, flatMap_cons, length_append, length_nil] at hlen
      omega
  · rintro rfl
    rfl

/-- **A payload decodes to the messages framed in it**, in order. -/
theorem decodeTaggedBatch_batch (msgs : List Bytes)
    (hfits : ∀ data ∈ msgs, (encodeTagged subId data).length < 2 ^ 32) :
    decodeTaggedBatch (batch subId msgs) = msgs.map fun data => (subId, data) := by
  induction msgs with
  | nil =>
    rw [decodeTaggedBatch]
    rfl
  | cons data rest ih =>
    have hdata := hfits data mem_cons_self
    have htake : takeFrame (batch subId (data :: rest))
        = some (encodeTagged subId data, batch subId rest) :=
      takeFrame_frame hdata _
    have hne : encodeTagged subId data ≠ [] := by
      intro h
      have := congrArg List.length h
      rw [encodeTagged, length_append, length_append, U32.length_toLeBytes,
        length_nil] at this
      omega
    rw [decodeTaggedBatch]
    split
    · next h =>
      rw [htake] at h
      cases h
    · next tagged tail h =>
      rw [htake] at h
      cases h
      rw [if_neg hne, decodeTagged_encodeTagged hdata,
        ih fun d hd => hfits d (mem_cons_of_mem _ hd)]
      rfl

/-! ### One frame more -/

namespace BatchBuffer

/-- The one case in which a frame loses the buffer. -/
theorem addFrame_overrun {b : BatchBuffer} {frame : Bytes} (now : ℕ) (hne : b.buf ≠ [])
    (hbig : frame.length ≥ batchSizeThreshold) :
    (b.addFrame frame now).2 = some frame ∧ (b.addFrame frame now).1.buf = [] := by
  have hpos : 0 < b.buf.length := List.length_pos_iff.mpr hne
  have hfull : b.buf.length + frame.length > batchSizeThreshold := by omega
  simp [addFrame, hne, hfull, hbig]

/-- Otherwise the bytes returned and the bytes kept are those there were and
the frame: split between the two, all returned or all kept. -/
theorem addFrame_cases {b : BatchBuffer} {frame : Bytes} (now : ℕ)
    (h : ¬ (b.buf ≠ [] ∧ frame.length ≥ batchSizeThreshold)) :
    ((b.addFrame frame now).2 = some b.buf ∧ (b.addFrame frame now).1.buf = frame) ∨
    ((b.addFrame frame now).2 = some (b.buf ++ frame) ∧ (b.addFrame frame now).1.buf = []) ∨
    ((b.addFrame frame now).2 = none ∧ (b.addFrame frame now).1.buf = b.buf ++ frame) := by
  by_cases hfull : b.buf ≠ [] ∧ b.buf.length + frame.length > batchSizeThreshold
  · have hsmall : ¬ frame.length ≥ batchSizeThreshold := fun hbig => h ⟨hfull.1, hbig⟩
    left
    simp [addFrame, hfull, hsmall]
  · right
    have hkeep : (decide (b.buf ≠ [] ∧ b.buf.length + frame.length > batchSizeThreshold))
        = false := decide_eq_false hfull
    by_cases hbig : (b.buf ++ frame).length ≥ batchSizeThreshold
    · left
      simp only [addFrame, hkeep, Bool.false_eq_true, if_false, if_pos hbig, and_self]
    · right
      simp only [addFrame, hkeep, Bool.false_eq_true, if_false, if_neg hbig, and_self]

end BatchBuffer

end Nipworker
