/-
From the parser's batches to the hooks (`NostrManager.ts`).

The parser worker posts batches of frames; the manager takes a batch apart frame
by frame and writes each message to the buffer of its subscription, from which
the hooks read.  A message that does not fit closes the subscription.
-/
import Nipworker.Lib.Run
import Nipworker.Worker.BatchBuffer
import Nipworker.Client.MessageBuffer

namespace Nipworker

open ArrayBufferReader List

/-! ### Batches -/

def byteOrderMark : Char := '\uFEFF'

/-- `textDecoder.decode`, which drops a byte-order mark at the front. -/
def textDecoderDecode (bytes : Bytes) : String :=
  if (Utf8.decodeLossy bytes).toList.head? = some byteOrderMark then
    String.ofList (Utf8.decodeLossy bytes).toList.tail
  else Utf8.decodeLossy bytes

/-- A message that the parser sends to a subscription; its frame has a 32-bit
length, and no message is empty. -/
structure TaggedFrame where
  subId : String
  data : Bytes
  nonempty : data ≠ []
  fits : (encodeTagged subId data).length < 2 ^ 32

def payloadOf (frames : List TaggedFrame) : Bytes :=
  frames.flatMap fun f => BatchBufferManager.messageFrame f.subId f.data

def taggedWith (s : String) (frames : List TaggedFrame) : List Bytes :=
  (frames.filter fun f => f.subId = s).map fun f => f.data

/-- What the manager uses of the generated message code: the URL and the status
in a `ConnectionStatus` message, `none` for other messages, and the bytes of a
`BufferFull` message. -/
structure MessageCode where
  connectionStatus : Bytes → Option (String × String)
  bufferFull : String → Bytes

/-- A status of a relay as such: it goes with no subscription. -/
def relayLevel (code : MessageCode) (f : TaggedFrame) : Bool :=
  f.subId = "" ∧ (code.connectionStatus f.data).isSome

/-- The messages of a subscription: those tagged with its id, without the
statuses of relays as such. -/
def ownMessages (code : MessageCode) (s : String) (frames : List TaggedFrame) : List Bytes :=
  taggedWith s (frames.filter fun f => ¬ relayLevel code f)

/-! ### The main thread -/

/-- What the main thread reports, apart from buffer writes. -/
inductive MainEffect
  | relayStatus (status url : String)
  | subscription (subId : String)
  | publish (id : String)
  | bufferFull (id : String)
  | postedUnsubscribe (subId : String)
  deriving DecidableEq, Repr

/-- A hook that reads a buffer: its position, and what it has read. -/
structure BufferReader where
  position : ℕ
  messages : List Bytes

/-- The main thread: the tables of the manager, the buffers of closed
subscriptions, which their readers still have, the batches that were posted to
it with the offset in the first of them, what it has done, newest first, and the
readers. -/
structure MainThread where
  subscriptions : Map String Bytes
  publishes : Map String Bytes
  closed : Map String Bytes
  relayStatuses : Map String (String × ℕ)
  inbox : List Bytes
  offset : ℕ
  log : List MainEffect
  readers : String → BufferReader

namespace MainThread

def openBuffers : List (String × ℕ) → Map String Bytes
  | [] => ∅
  | (id, size) :: rest => AList.insert id (newBuffer size) (openBuffers rest)

/-- Some subscriptions with the sizes of their buffers, and some publishes. -/
def start (subs : List (String × ℕ)) (pubs : List String) : MainThread :=
  { subscriptions := openBuffers subs
    publishes := openBuffers (pubs.map fun id => (id, 3072))
    closed := ∅, relayStatuses := ∅, inbox := [], offset := 0, log := []
    readers := fun _ => ⟨0, []⟩ }

def bufferOf (st : MainThread) (subId : String) : Option Bytes :=
  (st.subscriptions.lookup subId).or (st.closed.lookup subId)

def closeSubscription (st : MainThread) (subId : String) : MainThread :=
  { st with
    subscriptions := AList.erase subId st.subscriptions
    closed := match st.subscriptions.lookup subId with
      | some buffer => AList.insert subId buffer st.closed
      | none => st.closed
    log := .postedUnsubscribe subId :: st.log }

def noteStatus (code : MessageCode) (st : MainThread) (data : Bytes) (now : ℕ) : MainThread :=
  match code.connectionStatus data with
  | some (url, status) =>
    if url ≠ "" ∧ status ≠ "" then
      { st with
        relayStatuses := AList.insert url (status, now) st.relayStatuses
        log := .relayStatus status url :: st.log }
    else st
  | none => st

/-- A message for a subscription: it is written, or the subscription is closed,
with a `BufferFull` message if that fits. -/
def writeToSubscription (code : MessageCode) (st : MainThread) (subId : String)
    (buffer data : Bytes) : MainThread :=
  let (next, written) := writePayload buffer data
  if written then
    { st with
      subscriptions := AList.insert subId next st.subscriptions
      log := .subscription subId :: st.log }
  else
    let (next, marked) := writePayload buffer (code.bufferFull subId)
    closeSubscription
      { st with
        subscriptions := AList.insert subId next st.subscriptions
        log := .bufferFull subId :: (if marked then [.subscription subId] else []) ++ st.log }
      subId

def writeToPublish (st : MainThread) (id : String) (buffer data : Bytes) : MainThread :=
  let (next, written) := writePayload buffer data
  if written then
    { st with
      publishes := AList.insert id next st.publishes
      log := .publish id :: st.log }
  else
    { st with
      publishes := AList.erase id st.publishes
      log := .bufferFull id :: st.log }

def handleParserMainFrame (code : MessageCode) (st : MainThread) (subId : String) (data : Bytes)
    (now : ℕ) : MainThread :=
  let st := st.noteStatus code data now
  if (code.connectionStatus data).isSome ∧ subId = "" then st
  else
    match st.subscriptions.lookup subId with
    | some buffer => st.writeToSubscription code subId buffer data
    | none =>
      match st.publishes.lookup subId with
      | some buffer => st.writeToPublish subId buffer data
      | none => st

/-- One turn of the loop of `parserMainPort.onmessage`: the id and the message of
the frame at the offset and the offset behind it, or `none` when the handler
returns. -/
def decodeFrame (buffer : Bytes) (offset : ℕ) : Option (String × Bytes × ℕ) :=
  if offset + 4 ≤ buffer.length then
    let frameLen := getUint32 buffer offset
    if frameLen = 0 ∨ offset + 4 + frameLen > buffer.length then none
    else
      let frameStart := offset + 4
      if frameLen < 4 then none
      else
        let subIdLen := getUint32 buffer frameStart
        if 4 + subIdLen > frameLen then none
        else
          some (textDecoderDecode ((buffer.drop (frameStart + 4)).take subIdLen),
            (buffer.drop (frameStart + 4 + subIdLen)).take (frameLen - 4 - subIdLen),
            frameStart + frameLen)
  else none

end MainThread

/-- What happens on the main thread: a batch is posted to it, it goes on by one
frame, or a hook reads. -/
inductive MainAction
  | message (frames : List TaggedFrame)
  | decode (now : ℕ)
  | read (subId : String)

/-- Batches arriving, single frames handled, reads. -/
def MainThread.step (code : MessageCode) (st : MainThread) : MainAction → MainThread
  | .message frames => { st with inbox := st.inbox ++ [payloadOf frames] }
  | .decode now =>
    match st.inbox with
    | [] => st
    | payload :: rest =>
      match decodeFrame payload st.offset with
      | none => { st with inbox := rest, offset := 0 }
      | some (subId, data, next) =>
        let st := { st with offset := next }
        if 0 < data.length then st.handleParserMainFrame code subId data now else st
  | .read subId =>
    match st.bufferOf subId with
    | none => st
    | some buffer =>
      let reader := st.readers subId
      let result := readMessages buffer reader.position
      { st with
        readers := Function.update st.readers subId
          ⟨result.newReadPosition, reader.messages ++ result.messages⟩ }

def sentFrames (acts : List MainAction) : List TaggedFrame :=
  acts.flatMap fun
    | .message frames => frames
    | _ => []

/-! ### What is asked of the reads -/

/-- The reader has read all that its buffer holds. -/
def CaughtUp (st : MainThread) (s : String) : Prop :=
  ∀ buffer, st.bufferOf s = some buffer →
    (readMessages buffer (st.readers s).position).hasNewData = false

/-- What has been read of a subscription is a front part of its messages.  It is
all of them if no message was refused, all batches are handled and there is
nothing new to read; if one was refused, a `BufferFull` message may stand behind
the front part. -/
def ReadsInOrder (code : MessageCode) (st : MainThread) (s : String) (msgs : List Bytes) : Prop :=
  (.bufferFull s ∉ st.log → (st.readers s).messages <+: msgs ∧
    (st.inbox = [] → CaughtUp st s → (st.readers s).messages = msgs)) ∧
  (.bufferFull s ∈ st.log → ∃ front, front <+: msgs ∧
    ((st.readers s).messages = front ∨
      (st.readers s).messages = front ++ [code.bufferFull s]))

/-! ### A batch is taken apart into its frames -/

theorem payloadOf_append (xs ys : List TaggedFrame) :
    payloadOf (xs ++ ys) = payloadOf xs ++ payloadOf ys :=
  flatMap_append

theorem payloadOf_cons (f : TaggedFrame) (rest : List TaggedFrame) :
    payloadOf (f :: rest) = frame (encodeTagged f.subId f.data) ++ payloadOf rest := rfl

theorem length_encodeTagged (subId : String) (data : Bytes) :
    (encodeTagged subId data).length = 4 + (Utf8.encode subId).length + data.length := by
  rw [encodeTagged, length_append, length_append, U32.length_toLeBytes]

variable {s : String} {code : MessageCode} {st : MainThread}

theorem textDecoderDecode_encode (h : s.toList.head? ≠ some byteOrderMark) :
    textDecoderDecode (Utf8.encode s) = s := by
  rw [textDecoderDecode, Utf8.decodeLossy_encode, if_neg h]

namespace MainThread

/-- A batch is taken apart into its frames. -/
theorem decodeFrame_payloadOf (done : List TaggedFrame) (f : TaggedFrame)
    (rest : List TaggedFrame) :
    decodeFrame (payloadOf (done ++ f :: rest)) (payloadOf done).length =
      some (textDecoderDecode (Utf8.encode f.subId), f.data, (payloadOf (done ++ [f])).length) := by
  have hfits := f.fits
  have htagged := length_encodeTagged f.subId f.data
  have hnext : (payloadOf (done ++ [f])).length
      = (payloadOf done).length + (4 + (encodeTagged f.subId f.data).length) := by
    rw [payloadOf_append, payloadOf_cons, length_append, length_append, length_frame]
    rfl
  have htotal : (payloadOf done).length + (4 + (encodeTagged f.subId f.data).length)
      ≤ (payloadOf (done ++ f :: rest)).length := by
    rw [payloadOf_append, payloadOf_cons, length_append, length_append, length_frame]
    omega
  -- the bytes from the offset on
  have hdrop : (payloadOf (done ++ f :: rest)).drop (payloadOf done).length
      = frame (encodeTagged f.subId f.data) ++ payloadOf rest := by
    rw [payloadOf_append, drop_left' rfl, payloadOf_cons]
  have hlen : getUint32 (payloadOf (done ++ f :: rest)) (payloadOf done).length
      = (encodeTagged f.subId f.data).length := by
    rw [getUint32, hdrop]
    exact ofLeBytes_frameLog hfits _
  have htag : (payloadOf (done ++ f :: rest)).drop ((payloadOf done).length + 4)
      = U32.toLeBytes (Utf8.encode f.subId).length ++ (Utf8.encode f.subId ++ (f.data ++ payloadOf rest)) := by
    rw [← drop_drop, hdrop, frame, append_assoc, drop_left' (U32.length_toLeBytes _),
      encodeTagged, append_assoc, append_assoc]
  have hsub : getUint32 (payloadOf (done ++ f :: rest)) ((payloadOf done).length + 4)
      = (Utf8.encode f.subId).length := by
    rw [getUint32, htag]
    exact U32.ofLeBytes_toLeBytes (by omega) _
  have hid : (payloadOf (done ++ f :: rest)).drop ((payloadOf done).length + 4 + 4)
      = Utf8.encode f.subId ++ (f.data ++ payloadOf rest) := by
    rw [← drop_drop, htag, drop_left' (U32.length_toLeBytes _)]
  have hdata : (payloadOf (done ++ f :: rest)).drop
      ((payloadOf done).length + 4 + 4 + (Utf8.encode f.subId).length) = f.data ++ payloadOf rest := by
    rw [← drop_drop, hid, drop_left' rfl]
  rw [decodeFrame, if_pos (by omega), hlen]
  dsimp only
  rw [if_neg (by omega), if_neg (by omega), hsub, if_neg (by omega), hid, hdata,
    take_left' rfl, take_left' (by omega), hnext]
  simp only [Option.some.injEq, Prod.mk.injEq, true_and]
  omega

theorem decodeFrame_end (frames : List TaggedFrame) :
    decodeFrame (payloadOf frames) (payloadOf frames).length = none := by
  rw [decodeFrame, if_neg (by omega)]

end MainThread

/-! ### One subscription -/

/-- The state of one subscription, after some frames have been handled: its
buffer holds its messages, or a front part of them if one was refused, and its
reader has read some of what the buffer holds. -/
structure Channel (code : MessageCode) (st : MainThread) (s : String) (own : List Bytes)
    (buffer : Bytes) (msgs : List Bytes) : Prop where
  holds : Holds buffer msgs
  state : (st.subscriptions.lookup s = some buffer ∧ .bufferFull s ∉ st.log ∧ msgs = own) ∨
    (st.subscriptions.lookup s = none ∧ st.closed.lookup s = some buffer ∧
      .bufferFull s ∈ st.log ∧
      ∃ front, front <+: own ∧ (msgs = front ∨ msgs = front ++ [code.bufferFull s]))
  reader : ∃ i ≤ msgs.length, (st.readers s).messages = msgs.take i ∧
    (if (st.readers s).position < 4 then 4 else (st.readers s).position) = 4 + framePos msgs i

structure SameChannel (st st' : MainThread) (s : String) : Prop where
  subscriptions : st'.subscriptions.lookup s = st.subscriptions.lookup s
  closed : st'.closed.lookup s = st.closed.lookup s
  log : .bufferFull s ∈ st'.log ↔ .bufferFull s ∈ st.log
  readers : st'.readers s = st.readers s

namespace Channel

variable {code : MessageCode} {st st' : MainThread} {s : String} {own msgs : List Bytes}
  {buffer : Bytes}

theorem congr (h : Channel code st s own buffer msgs) (hsame : SameChannel st st' s) :
    Channel code st' s own buffer msgs := by
  refine ⟨h.holds, ?_, ?_⟩
  · rw [hsame.subscriptions, hsame.closed, hsame.log]
    exact h.state
  · rw [hsame.readers]
    exact h.reader

theorem bufferOf (h : Channel code st s own buffer msgs) : st.bufferOf s = some buffer := by
  obtain ⟨hopen, -, -⟩ | ⟨hnone, hclosed, -, -⟩ := h.state
  · rw [MainThread.bufferOf, hopen, Option.some_or]
  · rw [MainThread.bufferOf, hnone, Option.none_or, hclosed]

theorem reader_more (h : Channel code st s own buffer msgs) (more : List Bytes) :
    ∃ i ≤ (msgs ++ more).length, (st.readers s).messages = (msgs ++ more).take i ∧
      (if (st.readers s).position < 4 then 4 else (st.readers s).position)
        = 4 + framePos (msgs ++ more) i := by
  obtain ⟨i, hi, hgot, hpos⟩ := h.reader
  refine ⟨i, by rw [length_append]; omega, ?_, ?_⟩
  · rw [take_append_of_le_length hi]
    exact hgot
  · rw [framePos_append hi]
    exact hpos

theorem closed_more (h : Channel code st s own buffer msgs)
    (hclosed : st.subscriptions.lookup s = none) (data : Bytes)
    (hsubs : st'.subscriptions.lookup s = st.subscriptions.lookup s)
    (hcl : st'.closed.lookup s = st.closed.lookup s)
    (hlog : .bufferFull s ∈ st.log → .bufferFull s ∈ st'.log)
    (hreaders : st'.readers s = st.readers s) :
    Channel code st' s (own ++ [data]) buffer msgs := by
  refine ⟨h.holds, ?_, ?_⟩
  · obtain ⟨hopen, -, -⟩ | ⟨-, hbuf, hfull, front, hfront, hmsgs⟩ := h.state
    · exact absurd (hclosed.symm.trans hopen) (by simp)
    · exact Or.inr ⟨hsubs.trans hclosed, hcl.trans hbuf, hlog hfull, front,
        hfront.trans (prefix_append own [data]), hmsgs⟩
  · rw [hreaders]
    exact h.reader

theorem read (h : Channel code st s own buffer msgs) :
    Channel code (st.step code (.read s)) s own buffer msgs := by
  obtain ⟨i, hi, hgot, hpos⟩ := h.reader
  have hread := h.holds.readMessages hi hpos
  simp only [MainThread.step, h.bufferOf, hread]
  refine ⟨h.holds, h.state, min (i + maxMessages) msgs.length, Nat.min_le_right _ _, ?_, ?_⟩
  · simp only [Function.update_self]
    rw [hgot, ← take_add, Nat.min_def]
    split
    · rfl
    · rw [take_of_length_le (by omega), take_length]
  · simp only [Function.update_self]
    rw [if_neg (by omega)]

end Channel

/-! ### One frame -/

namespace SameChannel

variable {st st' st'' : MainThread} {s k : String}

theorem refl (st : MainThread) (s : String) : SameChannel st st s := ⟨rfl, rfl, Iff.rfl, rfl⟩

theorem trans (h : SameChannel st st' s) (h' : SameChannel st' st'' s) : SameChannel st st'' s :=
  ⟨h'.subscriptions.trans h.subscriptions, h'.closed.trans h.closed, h'.log.trans h.log,
    h'.readers.trans h.readers⟩

variable (code : MessageCode)

theorem noteStatus (st : MainThread) (data : Bytes) (now : ℕ) (s : String) :
    SameChannel st (st.noteStatus code data now) s := by
  rw [MainThread.noteStatus]
  split
  next url status _ =>
    by_cases hboth : url ≠ "" ∧ status ≠ ""
    · rw [if_pos hboth]
      exact ⟨rfl, rfl, by simp, rfl⟩
    · rw [if_neg hboth]
      exact refl st s
  next => exact refl st s

theorem writeToSubscription (st : MainThread) {k s : String} (hne : s ≠ k)
    (buffer data : Bytes) : SameChannel st (st.writeToSubscription code k buffer data) s := by
  simp only [MainThread.writeToSubscription]
  by_cases hwritten : (writePayload buffer data).2 = true
  · rw [if_pos hwritten]
    exact ⟨by rw [Map.lookup_insert_ite, if_neg hne], rfl, by simp, rfl⟩
  · rw [if_neg hwritten, MainThread.closeSubscription]
    refine ⟨?_, ?_, ?_, rfl⟩
    · rw [Map.lookup_erase_ite, if_neg hne, Map.lookup_insert_ite, if_neg hne]
    · simp only [Map.lookup_insert_ite, if_pos]
      rw [if_neg hne]
    · by_cases hmarked : (writePayload buffer (code.bufferFull k)).2 = true
      · simp [hmarked, hne]
      · simp [hmarked, hne]

theorem writeToPublish (st : MainThread) {k s : String} (hne : s ≠ k) (buffer data : Bytes) :
    SameChannel st (st.writeToPublish k buffer data) s := by
  simp only [MainThread.writeToPublish]
  by_cases hwritten : (writePayload buffer data).2 = true
  · rw [if_pos hwritten]
    exact ⟨rfl, rfl, by simp, rfl⟩
  · rw [if_neg hwritten]
    exact ⟨rfl, rfl, by simp [hne], rfl⟩

theorem handle (st : MainThread) {k s : String} (hne : s ≠ k) (data : Bytes)
    (now : ℕ) : SameChannel st (st.handleParserMainFrame code k data now) s := by
  rw [MainThread.handleParserMainFrame]
  have hnote := noteStatus code st data now s
  split
  next => exact hnote
  next =>
    split
    next buffer _ => exact hnote.trans (writeToSubscription code _ hne buffer data)
    next =>
      split
      next buffer _ => exact hnote.trans (writeToPublish _ hne buffer data)
      next => exact hnote

end SameChannel

namespace Channel

variable {code : MessageCode} {st : MainThread} {s : String} {own msgs : List Bytes}
  {buffer : Bytes}

/-- A message for an open subscription: the buffer holds it too, or the
subscription is closed with the messages it has. -/
theorem write (h : Channel code st s own buffer msgs)
    (hopen : st.subscriptions.lookup s = some buffer) (data : Bytes) :
    ∃ buffer' msgs', Channel code (st.writeToSubscription code s buffer data) s (own ++ [data])
      buffer' msgs' := by
  have hstate : .bufferFull s ∉ st.log ∧ msgs = own := by
    obtain ⟨-, hlog, hmsgs⟩ | ⟨hnone, -⟩ := h.state
    · exact ⟨hlog, hmsgs⟩
    · exact absurd (hnone.symm.trans hopen) (by simp)
  obtain ⟨hlog, rfl⟩ := hstate
  simp only [MainThread.writeToSubscription]
  obtain ⟨-, hwritten, hholds⟩ | ⟨-, hrefused⟩ := h.holds.writePayload data
  · rw [if_pos hwritten]
    refine ⟨_, _, hholds, Or.inl ⟨?_, ?_, rfl⟩, h.reader_more [data]⟩
    · rw [Map.lookup_insert_ite, if_pos rfl]
    · simp [hlog]
  · -- the buffer is full: the marker, if there is room for it
    rw [hrefused, if_neg (by simp), MainThread.closeSubscription]
    obtain ⟨-, hmarked, hholds⟩ | ⟨-, hnomark⟩ := h.holds.writePayload (code.bufferFull s)
    · refine ⟨_, _, hholds, Or.inr ⟨?_, ?_, ?_, msgs, prefix_append msgs [data], Or.inr rfl⟩,
        h.reader_more [code.bufferFull s]⟩
      · rw [Map.lookup_erase_ite, if_pos rfl]
      · simp only [Map.lookup_insert_ite, if_pos]
      · simp
    · refine ⟨buffer, msgs, h.holds, Or.inr ⟨?_, ?_, ?_, msgs, prefix_append msgs [data],
        Or.inl rfl⟩, h.reader⟩
      · rw [Map.lookup_erase_ite, if_pos rfl]
      · simp only [Map.lookup_insert_ite, if_pos, hnomark]
      · simp

theorem handle (h : Channel code st s own buffer msgs) (data : Bytes) (now : ℕ)
    (hown : ¬ (s = "" ∧ (code.connectionStatus data).isSome)) :
    ∃ buffer' msgs', Channel code (st.handleParserMainFrame code s data now) s (own ++ [data])
      buffer' msgs' := by
  have hnote := h.congr (SameChannel.noteStatus code st data now s)
  rw [MainThread.handleParserMainFrame]
  rw [if_neg fun hrelay => hown ⟨hrelay.2, hrelay.1⟩]
  split
  next buffer' hopen =>
    obtain rfl : buffer' = buffer := by
      have hbuf := hnote.bufferOf
      rw [MainThread.bufferOf, hopen, Option.some_or] at hbuf
      exact Option.some.inj hbuf
    exact hnote.write hopen data
  next hnone =>
    refine ⟨buffer, msgs, ?_⟩
    split
    next out _ =>
      -- a publish of the same id, once the subscription is closed
      simp only [MainThread.writeToPublish]
      split
      next => exact hnote.closed_more hnone data rfl rfl (by simp) rfl
      next => exact hnote.closed_more hnone data rfl rfl (by simp) rfl
    next => exact hnote.closed_more hnone data rfl rfl (fun hmem => hmem) rfl

theorem handle_relayLevel (h : Channel code st s own buffer msgs) (data : Bytes) (now : ℕ)
    (hrelay : s = "" ∧ (code.connectionStatus data).isSome) :
    Channel code (st.handleParserMainFrame code s data now) s own buffer msgs := by
  rw [MainThread.handleParserMainFrame]
  rw [if_pos ⟨hrelay.2, hrelay.1⟩]
  exact h.congr (SameChannel.noteStatus code st data now s)

end Channel

/-! ### Runs -/

/-- The frames that are posted but not handled: those of the first batch behind
the offset, and all of the other batches. -/
def InboxHolds (st : MainThread) (waiting : List TaggedFrame) : Prop :=
  (st.inbox = [] ∧ st.offset = 0 ∧ waiting = []) ∨
    ∃ done rest batches, st.inbox = payloadOf (done ++ rest) :: List.map payloadOf batches ∧
      st.offset = (payloadOf done).length ∧ waiting = rest ++ batches.flatten

/-- The frames sent so far are those that were handled and those that wait, and
the subscription is in the state the handled ones bring it to. -/
def Delivering (code : MessageCode) (st : MainThread) (sent : List TaggedFrame) (s : String) :
    Prop :=
  ∃ handled waiting, sent = handled ++ waiting ∧ InboxHolds st waiting ∧
    ∃ buffer msgs, Channel code st s (ownMessages code s handled) buffer msgs

theorem InboxHolds.message {st : MainThread} {waiting : List TaggedFrame}
    (h : InboxHolds st waiting) (code : MessageCode) (frames : List TaggedFrame) :
    InboxHolds (st.step code (.message frames)) (waiting ++ frames) := by
  obtain ⟨hin, hoff, rfl⟩ | ⟨done, rest, batches, hin, hoff, rfl⟩ := h
  · refine Or.inr ⟨[], frames, [], ?_, hoff, by simp⟩
    simp only [MainThread.step, hin]
    rfl
  · refine Or.inr ⟨done, rest, batches ++ [frames], ?_, hoff, by simp⟩
    simp only [MainThread.step, hin, cons_append, map_append]
    rfl

theorem inboxHolds_next (st : MainThread) (batches : List (List TaggedFrame)) :
    InboxHolds { st with inbox := batches.map payloadOf, offset := 0 } batches.flatten := by
  cases batches with
  | nil => exact Or.inl ⟨rfl, rfl, rfl⟩
  | cons frames batches => exact Or.inr ⟨[], frames, batches, rfl, rfl, rfl⟩

theorem handle_inbox (code : MessageCode) (st : MainThread) (k : String) (data : Bytes) (now : ℕ) :
    (st.handleParserMainFrame code k data now).inbox = st.inbox ∧
      (st.handleParserMainFrame code k data now).offset = st.offset := by
  have hnote : (st.noteStatus code data now).inbox = st.inbox ∧
      (st.noteStatus code data now).offset = st.offset := by
    rw [MainThread.noteStatus]
    split
    next => split <;> exact ⟨rfl, rfl⟩
    next => exact ⟨rfl, rfl⟩
  rw [MainThread.handleParserMainFrame]
  split
  next => exact hnote
  next =>
    split
    next =>
      simp only [MainThread.writeToSubscription, MainThread.closeSubscription]
      split <;> exact hnote
    next =>
      split
      next =>
        simp only [MainThread.writeToPublish]
        split <;> exact hnote
      next => exact hnote

theorem ownMessages_append (code : MessageCode) (s : String) (xs ys : List TaggedFrame) :
    ownMessages code s (xs ++ ys) = ownMessages code s xs ++ ownMessages code s ys := by
  simp only [ownMessages, taggedWith, filter_append, map_append]

theorem ownMessages_singleton (code : MessageCode) (s : String) (f : TaggedFrame) :
    ownMessages code s [f] = if f.subId = s ∧ relayLevel code f = false then [f.data] else [] := by
  simp only [ownMessages, taggedWith, filter_filter]
  by_cases h : f.subId = s ∧ relayLevel code f = false
  · rw [if_pos h, filter_cons_of_pos (by simp [h.1, h.2])]
    rfl
  · rw [if_neg h, filter_cons_of_neg]
    · rfl
    · simpa [Bool.not_eq_false] using h

theorem Channel.frame {own msgs : List Bytes}
    {buffer : Bytes} (h : Channel code st s own buffer msgs) (f : TaggedFrame) (now : ℕ) :
    ∃ buffer' msgs', Channel code (st.handleParserMainFrame code f.subId f.data now) s
      (own ++ ownMessages code s [f]) buffer' msgs' := by
  rw [ownMessages_singleton]
  by_cases hid : f.subId = s
  · subst hid
    cases hrelay : relayLevel code f with
    | true =>
      rw [if_neg (by simp), append_nil]
      exact ⟨buffer, msgs, h.handle_relayLevel f.data now (by simpa [relayLevel] using hrelay)⟩
    | false =>
      rw [if_pos ⟨rfl, rfl⟩]
      exact h.handle f.data now (by simpa [relayLevel] using hrelay)
  · rw [if_neg fun hboth => hid hboth.1, append_nil]
    exact ⟨buffer, msgs, h.congr (SameChannel.handle code st (Ne.symm hid) f.data now)⟩

theorem MainThread.step_decode {payload data : Bytes}
    {rest : List Bytes} {k : String} {next now : ℕ} (hin : st.inbox = payload :: rest)
    (hdec : decodeFrame payload st.offset = some (k, data, next)) (hpos : 0 < data.length) :
    st.step code (.decode now) =
      ({ st with offset := next } : MainThread).handleParserMainFrame code k data now := by
  simp only [MainThread.step, hin, hdec, if_pos hpos]

theorem Delivering.decode {sent : List TaggedFrame} (h : Delivering code st sent s)
    (hplain : ∀ f ∈ sent, f.subId.toList.head? ≠ some byteOrderMark) (now : ℕ) :
    Delivering code (st.step code (.decode now)) sent s := by
  obtain ⟨handled, waiting, hsent, hinbox, buffer, msgs, hchannel⟩ := h
  obtain ⟨hin, hoff, rfl⟩ | ⟨done, rest, batches, hin, hoff, rfl⟩ := hinbox
  · simp only [MainThread.step, hin]
    exact ⟨handled, [], hsent, Or.inl ⟨hin, hoff, rfl⟩, buffer, msgs, hchannel⟩
  cases rest with
  | nil =>
    -- the handler returns, and the next batch is begun
    rw [append_nil] at hin
    simp only [MainThread.step, hin, hoff, MainThread.decodeFrame_end]
    refine ⟨handled, batches.flatten, hsent, inboxHolds_next st batches, buffer, msgs, ?_⟩
    exact hchannel.congr ⟨rfl, rfl, Iff.rfl, rfl⟩
  | cons f rest =>
    have hmem : f ∈ sent := by
      rw [hsent]
      simp
    have hpos : 0 < f.data.length := List.length_pos_iff.mpr f.nonempty
    have hdec := MainThread.decodeFrame_payloadOf done f rest
    rw [textDecoderDecode_encode (hplain f hmem), ← hoff] at hdec
    rw [MainThread.step_decode hin hdec hpos]
    have hmoved : Channel code { st with offset := (payloadOf (done ++ [f])).length } s
        (ownMessages code s handled) buffer msgs := hchannel.congr ⟨rfl, rfl, Iff.rfl, rfl⟩
    obtain ⟨buffer', msgs', hnext⟩ := hmoved.frame f now
    refine ⟨handled ++ [f], rest ++ batches.flatten, ?_, ?_, buffer', msgs', ?_⟩
    · rw [hsent]
      simp
    · refine Or.inr ⟨done ++ [f], rest, batches, ?_, ?_, rfl⟩
      · rw [(handle_inbox code _ f.subId f.data now).1, append_assoc]
        exact hin
      · exact (handle_inbox code _ f.subId f.data now).2
    · rw [ownMessages_append]
      exact hnext

theorem Delivering.read {code : MessageCode} {st : MainThread} {sent : List TaggedFrame}
    {s : String} (h : Delivering code st sent s) (k : String) :
    Delivering code (st.step code (.read k)) sent s := by
  obtain ⟨handled, waiting, hsent, hinbox, buffer, msgs, hchannel⟩ := h
  -- a read changes its own reader only
  have hsame : (st.step code (.read k)).inbox = st.inbox ∧
      (st.step code (.read k)).offset = st.offset ∧
      (s ≠ k → SameChannel st (st.step code (.read k)) s) := by
    simp only [MainThread.step]
    split
    next => exact ⟨rfl, rfl, fun _ => SameChannel.refl st s⟩
    next => exact ⟨rfl, rfl, fun hne => ⟨rfl, rfl, Iff.rfl, Function.update_of_ne hne _ _⟩⟩
  refine ⟨handled, waiting, hsent, ?_, buffer, msgs, ?_⟩
  · rw [InboxHolds, hsame.1, hsame.2.1]
    exact hinbox
  · by_cases hk : s = k
    · rw [← hk]
      exact hchannel.read
    · exact hchannel.congr (hsame.2.2 hk)

theorem Delivering.message {code : MessageCode} {st : MainThread} {sent : List TaggedFrame}
    {s : String} (h : Delivering code st sent s) (frames : List TaggedFrame) :
    Delivering code (st.step code (.message frames)) (sent ++ frames) s := by
  obtain ⟨handled, waiting, hsent, hinbox, buffer, msgs, hchannel⟩ := h
  refine ⟨handled, waiting ++ frames, ?_, hinbox.message code frames, buffer, msgs,
    hchannel.congr ⟨rfl, rfl, Iff.rfl, rfl⟩⟩
  rw [hsent, append_assoc]

theorem Delivering.run (acts : List MainAction) :
    ∀ {st : MainThread} {sent : List TaggedFrame}, Delivering code st sent s →
    (∀ f ∈ sent ++ sentFrames acts, f.subId.toList.head? ≠ some byteOrderMark) →
    Delivering code (Run.exec (MainThread.step code) st acts) (sent ++ sentFrames acts) s := by
  induction acts with
  | nil =>
    intro st sent h _
    rw [show sentFrames [] = [] from rfl, append_nil]
    exact h
  | cons a acts ih =>
    intro st sent h hplain
    have hsent : ∀ f ∈ sent, f.subId.toList.head? ≠ some byteOrderMark :=
      fun f hf => hplain f (mem_append_left _ hf)
    rw [Run.exec_cons]
    cases a with
    | message frames =>
      have hcons : sentFrames (.message frames :: acts) = frames ++ sentFrames acts := rfl
      rw [hcons, ← append_assoc] at hplain ⊢
      exact ih (h.message frames) hplain
    | decode now => exact ih (h.decode hsent now) hplain
    | read k => exact ih (h.read k) hplain

theorem lookup_openBuffers {subs : List (String × ℕ)} (h : s ∈ subs.map Prod.fst) :
    ∃ size, (s, size) ∈ subs ∧ (MainThread.openBuffers subs).lookup s = some (newBuffer size) := by
  induction subs with
  | nil => exact absurd h (by simp)
  | cons entry rest ih =>
    obtain ⟨id, size⟩ := entry
    rw [MainThread.openBuffers, Map.lookup_insert_ite]
    by_cases hid : s = id
    · exact ⟨size, by rw [hid]; exact mem_cons_self, if_pos hid⟩
    · rw [map_cons, mem_cons] at h
      obtain ⟨size', hmem, hlook⟩ := ih (h.resolve_left hid)
      exact ⟨size', mem_cons_of_mem _ hmem, by rw [if_neg hid]; exact hlook⟩

theorem Delivering.start (code : MessageCode) {subs : List (String × ℕ)} (pubs : List String)
    (hsize : ∀ p ∈ subs, 4 ≤ p.2 ∧ p.2 < 2 ^ 32) (hs : s ∈ subs.map Prod.fst) :
    Delivering code (MainThread.start subs pubs) [] s := by
  obtain ⟨size, hmem, hlook⟩ := lookup_openBuffers hs
  have hholds := holds_newBuffer (hsize _ hmem).1 (hsize _ hmem).2
  refine ⟨[], [], rfl, Or.inl ⟨rfl, rfl, rfl⟩, newBuffer size, [], hholds, ?_, 0, ?_⟩
  · exact Or.inl ⟨hlook, by simp [MainThread.start], rfl⟩
  · exact ⟨le_refl _, rfl, rfl⟩

theorem take_append_singleton {α : Type*} (front : List α) (x : α) (i : ℕ) :
    (∃ part, part <+: front ∧ (front ++ [x]).take i = part) ∨
      (front ++ [x]).take i = front ++ [x] := by
  by_cases hi : i ≤ front.length
  · exact Or.inl ⟨front.take i, take_prefix i front, take_append_of_le_length hi⟩
  · exact Or.inr (take_of_length_le (by rw [length_append, length_singleton]; omega))

theorem Delivering.reads {sent : List TaggedFrame} (h : Delivering code st sent s) :
    ReadsInOrder code st s (ownMessages code s sent) := by
  obtain ⟨handled, waiting, hsent, hinbox, buffer, msgs, hchannel⟩ := h
  have hfront : ownMessages code s handled <+: ownMessages code s sent := by
    rw [hsent, ownMessages_append]
    exact prefix_append _ _
  obtain ⟨i, hi, hgot, hpos⟩ := hchannel.reader
  refine ⟨fun hlog => ?_, fun hlog => ?_⟩
  · obtain ⟨-, -, rfl⟩ | ⟨-, -, hfull, -⟩ := hchannel.state
    swap
    · exact absurd hfull hlog
    refine ⟨?_, fun hin hcaught => ?_⟩
    · rw [hgot]
      have htake := take_prefix i (ownMessages code s handled)
      exact htake.trans hfront
    -- nothing waits, and the reader is behind the last message
    have hwaiting : waiting = [] := by
      obtain ⟨-, -, hnil⟩ | ⟨done, rest, batches, hcons, -⟩ := hinbox
      · exact hnil
      · exact absurd (hin.symm.trans hcons) (by simp)
    have hread := hcaught buffer hchannel.bufferOf
    rw [hchannel.holds.readMessages hi hpos, decide_eq_false_iff_not] at hread
    rw [hgot, take_of_length_le (by omega), hsent, hwaiting, append_nil]
  · obtain ⟨-, hnone, -⟩ | ⟨-, -, -, front, hown, hmsgs⟩ := hchannel.state
    · exact absurd hlog hnone
    have hall := hown.trans hfront
    obtain rfl | rfl := hmsgs
    · have htake := take_prefix i msgs
      exact ⟨_, htake.trans hall, Or.inl hgot⟩
    · obtain ⟨part, hpart, htake⟩ | htake := take_append_singleton front (code.bufferFull s) i
      · exact ⟨part, hpart.trans hall, Or.inl (hgot.trans htake)⟩
      · exact ⟨front, hall, Or.inr (hgot.trans htake)⟩

/-- **Delivery to the hooks.**  In every run, whatever the batches, the sizes of
the buffers and the reads are, what is read of a subscription is a front part of
its messages; all of them if none was refused and reading has caught up, and
with at most one `BufferFull` message behind it otherwise. -/
theorem reads_in_order (code : MessageCode) (subs : List (String × ℕ)) (pubs : List String)
    (acts : List MainAction) (hsize : ∀ p ∈ subs, 4 ≤ p.2 ∧ p.2 < 2 ^ 32)
    (hplain : ∀ f ∈ sentFrames acts, f.subId.toList.head? ≠ some byteOrderMark)
    (s : String) (hs : s ∈ subs.map Prod.fst) :
    ReadsInOrder code (Run.exec (MainThread.step code) (MainThread.start subs pubs) acts) s
      (ownMessages code s (sentFrames acts)) := by
  have hstart := Delivering.start code pubs hsize hs
  exact (hstart.run acts hplain).reads

/-- A `ConnectionStatus` message: `wss://r`, `connected`. -/
def statusMessage : Bytes :=
  [20, 0, 0, 0, 14, 0, 16, 0, 0, 0, 0, 0, 8, 0, 12, 0, 4, 0, 0, 0, 16, 0, 0, 0, 20, 0, 0, 0,
    1, 0, 0, 0, 3, 0, 0, 0, 8, 0, 12, 0, 4, 0, 8, 0, 8, 0, 0, 0, 8, 0, 0, 0, 16, 0, 0, 0,
    7, 0, 0, 0, 119, 115, 115, 58, 47, 47, 114, 0,
    9, 0, 0, 0, 99, 111, 110, 110, 101, 99, 116, 101, 100, 0, 0, 0]

def blankMessage : Bytes := [8, 0, 0, 0, 4, 0, 4, 0, 4, 0, 0, 0]

def plainCode : MessageCode :=
  { connectionStatus := fun data =>
      if data = statusMessage then some ("wss://r", "connected") else none
    bufferFull := fun _ => blankMessage }

def statusFrame (subId : String) (h : (encodeTagged subId statusMessage).length < 2 ^ 32) :
    TaggedFrame :=
  ⟨subId, statusMessage, by decide, h⟩

/-- A status and a message without content, for a subscription with a small
buffer. -/
theorem reads_in_order_small :
    ReadsInOrder plainCode
      (Run.exec (MainThread.step plainCode) (MainThread.start [("s", 100)] [])
        [.message [statusFrame "s" (by decide), ⟨"s", blankMessage, by decide, by decide⟩],
          .decode 0, .read "s", .decode 0, .decode 0, .read "s"]) "s"
      [statusMessage, blankMessage] := by
  have h := reads_in_order plainCode [("s", 100)] []
    [.message [statusFrame "s" (by decide), ⟨"s", blankMessage, by decide, by decide⟩],
      .decode 0, .read "s", .decode 0, .decode 0, .read "s"] (by decide) (by decide) "s" (by decide)
  convert h using 1
  decide

/-- **The empty id.**  A status that is sent with the empty id is that of a relay
as such; a subscription with this id does not get it. -/
theorem relay_statuses_pass_by :
    ¬ ReadsInOrder plainCode
      (Run.exec (MainThread.step plainCode) (MainThread.start [("", 256)] [])
        [.message [statusFrame "" (by decide)], .decode 0, .decode 0, .read ""]) ""
      (taggedWith "" (sentFrames
        [.message [statusFrame "" (by decide)], .decode 0, .decode 0, .read ""])) := by
  rintro ⟨h, -⟩
  obtain ⟨-, hall⟩ := h (by decide)
  have hread := hall (by decide) ?_
  · exact absurd hread (by decide)
  · intro buffer hbuffer
    have hnew : ((Run.exec (MainThread.step plainCode) (MainThread.start [("", 256)] [])
        [.message [statusFrame "" (by decide)], .decode 0, .decode 0, .read ""]).bufferOf "").map
          (fun buffer => (readMessages buffer
            ((Run.exec (MainThread.step plainCode) (MainThread.start [("", 256)] [])
              [.message [statusFrame "" (by decide)], .decode 0, .decode 0, .read ""]).readers
                "").position).hasNewData) = some false := by
      decide
    rw [hbuffer] at hnew
    exact Option.some.inj hnew

end Nipworker
