/-
The buffer between the manager and the hooks (`lib/ArrayBufferReader.ts`).

Each subscription has a buffer of a fixed size.  Its first four bytes hold the
position at which to write next; behind them the messages stand, each behind its
length.  A reader keeps its own position and takes up to 128 messages at a time.
-/
import Nipworker.Lib.Bytes

namespace Nipworker

open List

namespace ArrayBufferReader

/-! ### Bytes of a buffer -/

/-- `uint8View.set(data, pos)`. -/
def setBytes (buffer : Bytes) (pos : ℕ) (data : Bytes) : Bytes :=
  buffer.take pos ++ data ++ buffer.drop (pos + data.length)

/-- `view.setUint32(pos, n, true)`. -/
def setUint32 (buffer : Bytes) (pos n : ℕ) : Bytes := setBytes buffer pos (U32.toLeBytes n)

/-- `view.getUint32(pos, true)`. -/
def getUint32 (buffer : Bytes) (pos : ℕ) : ℕ := U32.ofLeBytes (buffer.drop pos)

def initializeBuffer (buffer : Bytes) : Bytes := setUint32 buffer 0 4

/-- A new buffer: `new ArrayBuffer(size)`, initialised. -/
def newBuffer (size : ℕ) : Bytes := initializeBuffer (List.replicate size 0)

/-! ### Writing and reading -/

def writePayload (buffer payload : Bytes) : Bytes × Bool :=
  let currentWritePosition := getUint32 buffer 0
  let requiredSpace := 4 + payload.length
  if currentWritePosition + requiredSpace > buffer.length then (buffer, false)
  else
    let buffer := setUint32 buffer currentWritePosition payload.length
    let buffer := setBytes buffer (currentWritePosition + 4) payload
    (setUint32 buffer 0 (currentWritePosition + requiredSpace), true)

/-- The loop of `readMessages`, with the number of messages that may still be
read: the messages and the position at which it ends. -/
def readLoop (buffer : Bytes) (currentWritePosition : ℕ) : ℕ → ℕ → List Bytes × ℕ
  | 0, currentPos => ([], currentPos)
  | left + 1, currentPos =>
    if currentPos < currentWritePosition then
      if currentPos + 4 > currentWritePosition then ([], currentPos)
      else
        let eventLength := getUint32 buffer currentPos
        let payloadStart := currentPos + 4
        let nextPos := payloadStart + eventLength
        -- a malformed frame: the remaining bytes are skipped
        if nextPos > currentWritePosition then ([], currentWritePosition)
        else
          let (messages, endPos) := readLoop buffer currentWritePosition left nextPos
          ((buffer.drop payloadStart).take eventLength :: messages, endPos)
    else ([], currentPos)

def maxMessages : ℕ := 128

/-- What `readMessages` returns. -/
structure ReadResult where
  messages : List Bytes
  newReadPosition : ℕ
  hasNewData : Bool
  deriving DecidableEq, Repr

def readMessages (buffer : Bytes) (lastReadPosition : ℕ) : ReadResult :=
  let currentWritePosition := getUint32 buffer 0
  let currentPos := if lastReadPosition < 4 then 4 else lastReadPosition
  if currentWritePosition ≤ currentPos then
    { messages := [], newReadPosition := currentPos, hasNewData := false }
  else
    let (messages, endPos) := readLoop buffer currentWritePosition maxMessages currentPos
    { messages := messages, newReadPosition := endPos, hasNewData := decide (0 < messages.length) }

/-! ### What a buffer holds -/

/-- A buffer that holds messages: the write position, their log, and room. -/
structure Holds (buffer : Bytes) (msgs : List Bytes) : Prop where
  layout : ∃ room, buffer = U32.toLeBytes (4 + (frameLog msgs).length) ++ frameLog msgs ++ room
  short : buffer.length < 2 ^ 32

theorem setBytes_append (front rest data : Bytes) :
    setBytes (front ++ rest) front.length data = front ++ data ++ rest.drop data.length := by
  rw [setBytes, take_left' rfl, drop_append, drop_of_length_le (by omega),
    nil_append, Nat.add_sub_cancel_left]

theorem holds_newBuffer {size : ℕ} (h4 : 4 ≤ size) (h : size < 2 ^ 32) : Holds (newBuffer size) [] := by
  have hset : newBuffer size = U32.toLeBytes 4 ++ (List.replicate size 0).drop 4 :=
    setBytes_append [] (List.replicate size 0) (U32.toLeBytes 4)
  refine ⟨⟨(List.replicate size 0).drop 4, ?_⟩, ?_⟩
  · rw [hset, frameLog_nil, append_nil]
    rfl
  · rw [hset, length_append, U32.length_toLeBytes, length_drop, length_replicate]
    omega

namespace Holds

variable {buffer : Bytes} {msgs : List Bytes}

theorem length_le (h : Holds buffer msgs) : 4 + (frameLog msgs).length ≤ buffer.length := by
  obtain ⟨room, hlayout⟩ := h.layout
  have hlen := congrArg List.length hlayout
  rw [length_append, length_append, U32.length_toLeBytes] at hlen
  omega

theorem writePosition (h : Holds buffer msgs) : getUint32 buffer 0 = 4 + (frameLog msgs).length := by
  have hle := h.length_le
  have hshort := h.short
  obtain ⟨room, hlayout⟩ := h.layout
  rw [getUint32, drop_zero, hlayout, append_assoc]
  exact U32.ofLeBytes_toLeBytes (by omega) _

/-- A write adds its message to the log, or is refused. -/
theorem writePayload (h : Holds buffer msgs) (payload : Bytes) :
    (4 + (frameLog (msgs ++ [payload])).length ≤ buffer.length ∧
      (ArrayBufferReader.writePayload buffer payload).2 = true ∧
      Holds (ArrayBufferReader.writePayload buffer payload).1 (msgs ++ [payload])) ∨
    (buffer.length < 4 + (frameLog (msgs ++ [payload])).length ∧
      ArrayBufferReader.writePayload buffer payload = (buffer, false)) := by
  have hpos := h.writePosition
  have hshort := h.short
  have hlog : (frameLog (msgs ++ [payload])).length
      = (frameLog msgs).length + (4 + payload.length) := by
    rw [frameLog_append, frameLog_singleton, length_append, length_frame]
  by_cases hfits : buffer.length < 4 + (frameLog (msgs ++ [payload])).length
  · refine Or.inr ⟨hfits, ?_⟩
    simp only [ArrayBufferReader.writePayload, hpos]
    rw [if_pos (by omega)]
  refine Or.inl ⟨by omega, ?_⟩
  obtain ⟨room, hlayout⟩ := h.layout
  have hlen := congrArg List.length hlayout
  rw [length_append, length_append, U32.length_toLeBytes] at hlen
  -- the three writes, each at the end of what stands before it
  set front := U32.toLeBytes (4 + (frameLog msgs).length) ++ frameLog msgs with hfront
  have hfrontlen : front.length = 4 + (frameLog msgs).length := by
    rw [hfront, length_append, U32.length_toLeBytes]
  have hfirst : setUint32 buffer (4 + (frameLog msgs).length) payload.length
      = front ++ U32.toLeBytes payload.length ++ room.drop 4 := by
    rw [hlayout, ← hfrontlen, setUint32, setBytes_append, U32.length_toLeBytes]
  have hsecond : setBytes (front ++ U32.toLeBytes payload.length ++ room.drop 4)
      (4 + (frameLog msgs).length + 4) payload
      = front ++ U32.toLeBytes payload.length ++ payload ++ (room.drop 4).drop payload.length := by
    rw [show 4 + (frameLog msgs).length + 4 = (front ++ U32.toLeBytes payload.length).length by
      rw [length_append, hfrontlen, U32.length_toLeBytes], setBytes_append]
  have hthird : ∀ n rest, setUint32 (front ++ rest) 0 n
      = U32.toLeBytes n ++ (frameLog msgs ++ rest) := by
    intro n rest
    have happ := setBytes_append [] (front ++ rest) (U32.toLeBytes n)
    rw [nil_append, nil_append, U32.length_toLeBytes, hfront, append_assoc,
      drop_left' (U32.length_toLeBytes _)] at happ
    rw [hfront, append_assoc]
    exact happ
  have hwrite : ArrayBufferReader.writePayload buffer payload =
      (U32.toLeBytes (4 + (frameLog (msgs ++ [payload])).length) ++ frameLog (msgs ++ [payload])
        ++ (room.drop 4).drop payload.length, true) := by
    simp only [ArrayBufferReader.writePayload, hpos]
    rw [if_neg (by omega), hfirst, hsecond, append_assoc, append_assoc, hthird,
      show 4 + (frameLog msgs).length + (4 + payload.length)
        = 4 + (frameLog (msgs ++ [payload])).length by omega,
      frameLog_append, frameLog_singleton, frame]
    simp only [append_assoc]
  rw [hwrite]
  refine ⟨rfl, ⟨_, rfl⟩, ?_⟩
  rw [length_append, length_append, U32.length_toLeBytes, length_drop,
    length_drop]
  omega

theorem drop_framePos (h : Holds buffer msgs) (i : ℕ) :
    ∃ room, buffer.drop (4 + framePos msgs i) = frameLog (msgs.drop i) ++ room := by
  obtain ⟨room, hlayout⟩ := h.layout
  refine ⟨room, ?_⟩
  have hle : framePos msgs i ≤ (frameLog msgs).length := by
    have hsplit := congrArg (fun l => (frameLog l).length) (take_append_drop i msgs)
    simp only [frameLog_append, length_append] at hsplit
    rw [framePos]
    omega
  rw [hlayout, append_assoc, ← drop_drop, drop_left' (U32.length_toLeBytes _),
    drop_append_of_le_length hle, drop_frameLog]

theorem readLoop (h : Holds buffer msgs) (left : ℕ) : ∀ {i : ℕ}, i ≤ msgs.length →
    ArrayBufferReader.readLoop buffer (4 + (frameLog msgs).length) left (4 + framePos msgs i)
      = ((msgs.drop i).take left, 4 + framePos msgs (min (i + left) msgs.length)) := by
  induction left with
  | zero =>
    intro i hi
    rw [ArrayBufferReader.readLoop, take_zero, Nat.add_zero, Nat.min_eq_left hi]
  | succ left ih =>
    intro i hi
    rw [ArrayBufferReader.readLoop]
    obtain hlt | rfl := Nat.lt_or_eq_of_le hi
    · -- one more message: its length, its bytes, and the position behind it
      have hdrop : msgs.drop i = msgs[i] :: msgs.drop (i + 1) := drop_eq_getElem_cons hlt
      have hnext : framePos msgs (i + 1) = framePos msgs i + (4 + msgs[i].length) := by
        rw [framePos_add, hdrop, framePos_cons_succ, framePos_zero, Nat.add_zero]
      have hend : framePos msgs (i + 1) ≤ (frameLog msgs).length := by
        rw [← framePos_length]
        exact framePos_le hlt (le_refl _)
      have hshort := h.short
      have hfits := h.length_le
      obtain ⟨room, hroom⟩ := h.drop_framePos i
      rw [hdrop, frameLog_cons, append_assoc] at hroom
      have hlength : getUint32 buffer (4 + framePos msgs i) = msgs[i].length := by
        rw [getUint32, hroom]
        exact ofLeBytes_frameLog (by omega) _
      have hpayload : (buffer.drop (4 + framePos msgs i + 4)).take msgs[i].length = msgs[i] := by
        rw [← drop_drop, hroom]
        exact take_drop_frame _ _
      have hpos : 4 + framePos msgs i + 4 + msgs[i].length = 4 + framePos msgs (i + 1) := by
        omega
      rw [if_pos (by omega), if_neg (by omega)]
      simp only [hlength, hpos, hpayload]
      rw [if_neg (by omega), ih hlt, hdrop, take_succ_cons,
        show i + 1 + left = i + (left + 1) by omega]
    · rw [framePos_length, if_neg (by omega), drop_length, take_nil,
        Nat.min_eq_right (by omega), framePos_length]

/-- **Reading.**  A read that starts behind the first `i` messages gives the next
ones, at most 128, and the position behind them. -/
theorem readMessages (h : Holds buffer msgs) {i lastReadPosition : ℕ} (hi : i ≤ msgs.length)
    (hpos : (if lastReadPosition < 4 then 4 else lastReadPosition) = 4 + framePos msgs i) :
    ArrayBufferReader.readMessages buffer lastReadPosition =
      { messages := (msgs.drop i).take maxMessages
        newReadPosition := 4 + framePos msgs (min (i + maxMessages) msgs.length)
        hasNewData := decide (i < msgs.length) } := by
  simp only [ArrayBufferReader.readMessages, hpos, h.writePosition]
  obtain hlt | rfl := Nat.lt_or_eq_of_le hi
  · have hend : framePos msgs i < (frameLog msgs).length := by
      rw [← framePos_length]
      exact framePos_lt hlt (le_refl _)
    rw [if_neg (by omega), h.readLoop maxMessages hi]
    simp only [length_take, length_drop, ReadResult.mk.injEq, true_and]
    rw [decide_eq_decide, maxMessages]
    omega
  · rw [framePos_length, if_pos (le_refl _), drop_length, take_nil,
      Nat.min_eq_right (by omega), framePos_length]
    simp

end Holds

end ArrayBufferReader

end Nipworker
