/-
Batch buffers that remember what is in them (`worker/batch_buffer.rs`).

The buffers of `BatchBuffer` hold bytes.  To follow a message through them, the
same buffers are kept here with the list of their messages in place of the bytes;
`enc` says what bytes a message is framed from, and all decisions are taken on
the lengths of these bytes, as in the source.
-/
import Nipworker.Worker.BatchBuffer

namespace Nipworker

open List

/-- A `BatchBuffer` as the list of its messages. -/
structure StampedBuffer (σ : Type) where
  items : List σ
  firstAt : ℕ

namespace StampedBuffer

variable {σ : Type} (enc : σ → Bytes) (subId : String)

def payload (items : List σ) : Bytes := batch subId (items.map enc)

def toBatch (b : StampedBuffer σ) : BatchBuffer :=
  { buf := payload enc subId b.items, firstAt := b.firstAt }

def new : StampedBuffer σ := { items := [], firstAt := 0 }

def addFrame (b : StampedBuffer σ) (x : σ) (now : ℕ) : StampedBuffer σ × Option (List σ) :=
  let frame := BatchBufferManager.messageFrame subId (enc x)
  let full : Bool := !b.items.isEmpty ∧
    (payload enc subId b.items).length + frame.length > batchSizeThreshold
  let pending := if full then some b.items else none
  let items := if full then [] else b.items
  let firstAt := if items.isEmpty then now else b.firstAt
  let items := items ++ [x]
  if (payload enc subId items).length ≥ batchSizeThreshold then
    ({ items := [], firstAt := firstAt }, some items)
  else ({ items := items, firstAt := firstAt }, pending)

def timedOut (b : StampedBuffer σ) (now : ℕ) : Bool :=
  !b.items.isEmpty ∧ now - b.firstAt ≥ batchTimeoutMs

end StampedBuffer

/-- A `BatchBufferManager` of such buffers. -/
structure StampedBatches (σ : Type) where
  buffers : Map String (StampedBuffer σ)

namespace StampedBatches

variable {σ : Type} (enc : σ → Bytes)

def new : StampedBatches σ := { buffers := ∅ }

def items (m : StampedBatches σ) (subId : String) : List σ :=
  ((m.buffers.lookup subId).getD StampedBuffer.new).items

def addMessage (m : StampedBatches σ) (subId : String) (x : σ) (now : ℕ) :
    StampedBatches σ × Option (List σ) :=
  let added := ((m.buffers.lookup subId).getD StampedBuffer.new).addFrame enc subId x now
  ({ buffers := m.buffers.insert subId added.1 }, added.2)

def flushSub (m : StampedBatches σ) (subId : String) : StampedBatches σ × Option (List σ) :=
  match m.buffers.lookup subId with
  | none => (m, none)
  | some b =>
    if b.items.isEmpty then (m, none) else ({ buffers := m.buffers.erase subId }, some b.items)

/-- Flush a list of subscriptions in turn; every payload with its subscription. -/
def flushSubs (m : StampedBatches σ) : List String → StampedBatches σ × List (String × List σ)
  | [] => (m, [])
  | subId :: rest =>
    let flushed := m.flushSub subId
    let more := flushed.1.flushSubs rest
    (more.1, flushed.2.toList.map (fun items => (subId, items)) ++ more.2)

def drainTimedOut (m : StampedBatches σ) (iter : IterOrder String) (now : ℕ) :
    StampedBatches σ × List (String × List σ) :=
  m.flushSubs ((iter.order m.buffers.keys).filter fun subId =>
    (m.buffers.lookup subId).any fun b => b.timedOut now)

end StampedBatches

/-! ### The same buffers, in bytes -/

namespace StampedBuffer

variable {σ : Type} {enc : σ → Bytes} {subId : String}

theorem payload_append (xs ys : List σ) :
    payload enc subId (xs ++ ys) = payload enc subId xs ++ payload enc subId ys := by
  rw [payload, map_append, batch_append]
  rfl

theorem payload_eq_nil {items : List σ} : payload enc subId items = [] ↔ items = [] := by
  rw [payload, batch_eq_nil, map_eq_nil_iff]

theorem payload_singleton (x : σ) :
    payload enc subId [x] = BatchBufferManager.messageFrame subId (enc x) :=
  batch_singleton subId (enc x)

theorem full_iff (b : StampedBuffer σ) (n : ℕ) :
    (b.toBatch enc subId).buf ≠ [] ∧ (b.toBatch enc subId).buf.length + n > batchSizeThreshold ↔
      (!b.items.isEmpty) = true ∧ (payload enc subId b.items).length + n > batchSizeThreshold := by
  have hnil : (b.toBatch enc subId).buf ≠ [] ↔ (!b.items.isEmpty) = true := by
    rw [Bool.not_eq_true', ← Bool.not_eq_true, List.isEmpty_iff]
    exact not_congr payload_eq_nil
  rw [hnil]
  rfl

theorem addFrame_toBatch (b : StampedBuffer σ) (x : σ) (now : ℕ) :
    (b.addFrame enc subId x now).1.toBatch enc subId =
        ((b.toBatch enc subId).addFrame (BatchBufferManager.messageFrame subId (enc x)) now).1 ∧
      (b.addFrame enc subId x now).2.map (payload enc subId) =
        ((b.toBatch enc subId).addFrame (BatchBufferManager.messageFrame subId (enc x)) now).2 := by
  have hlen : ∀ items : List σ, payload enc subId (items ++ [x])
      = payload enc subId items ++ BatchBufferManager.messageFrame subId (enc x) := by
    intro items
    rw [payload_append, payload_singleton]
  have hempty : ∀ items : List σ, (payload enc subId items = []) ↔ items.isEmpty = true := by
    intro items
    rw [payload_eq_nil, List.isEmpty_iff]
  have hnil : payload enc subId ([] : List σ) = [] := rfl
  unfold addFrame BatchBuffer.addFrame
  simp only [full_iff]
  -- the source takes the buffer away before the frame goes in, or it does not
  generalize hf : decide ((!b.items.isEmpty) = true ∧ (payload enc subId b.items).length
    + (BatchBufferManager.messageFrame subId (enc x)).length > batchSizeThreshold) = full
  cases full with
  | true =>
    simp only [if_true, hlen, hnil, isEmpty_nil]
    split
    · exact ⟨rfl, congrArg some (hlen [])⟩
    · exact ⟨congrArg₂ BatchBuffer.mk (hlen []) rfl, rfl⟩
  | false =>
    have hbuf : (b.toBatch enc subId).buf = payload enc subId b.items := rfl
    simp only [Bool.false_eq_true, if_false, hlen, hbuf]
    have hfirst : (if payload enc subId b.items = [] then now else (b.toBatch enc subId).firstAt)
        = if b.items.isEmpty then now else b.firstAt := by
      simp only [toBatch, hempty]
    rw [hfirst]
    split
    · exact ⟨rfl, congrArg some (hlen b.items)⟩
    · exact ⟨congrArg₂ BatchBuffer.mk (hlen b.items) rfl, rfl⟩

/-- Nothing overtakes in a buffer: what it returns and then what it keeps is
what it had and the new message, less what an overrun loses. -/
theorem addFrame_sublist (b : StampedBuffer σ) (x : σ) (now : ℕ) :
    ((b.addFrame enc subId x now).2.getD [] ++ (b.addFrame enc subId x now).1.items).Sublist
      (b.items ++ [x]) := by
  unfold addFrame
  dsimp only
  generalize decide ((!b.items.isEmpty) = true ∧ (payload enc subId b.items).length
    + (BatchBufferManager.messageFrame subId (enc x)).length > batchSizeThreshold) = full
  cases full with
  | true =>
    simp only [if_true, nil_append]
    split
    · exact sublist_append_right b.items [x]
    · exact List.Sublist.refl _
  | false =>
    simp only [Bool.false_eq_true, if_false]
    split
    · show (b.items ++ [x] ++ []).Sublist _
      rw [append_nil]
    · exact List.Sublist.refl _

end StampedBuffer

namespace StampedBatches

variable {σ : Type} {enc : σ → Bytes}

/-- The buffers of the source, with the messages read as their frames. -/
structure Simulates (enc : σ → Bytes) (m : StampedBatches σ) (bytes : BatchBufferManager) : Prop where
  keys : bytes.buffers.keys = m.buffers.keys
  lookup : ∀ subId, bytes.buffers.lookup subId =
    (m.buffers.lookup subId).map (StampedBuffer.toBatch enc subId)

variable {m : StampedBatches σ} {bytes : BatchBufferManager}

theorem simulates_addMessage (h : Simulates enc m bytes) (subId : String) (x : σ) (now : ℕ) :
    Simulates enc (m.addMessage enc subId x now).1 (bytes.addMessage subId (enc x) now).1 ∧
      (bytes.addMessage subId (enc x) now).2 =
        (m.addMessage enc subId x now).2.map (StampedBuffer.payload enc subId) := by
  have hb : (bytes.buffers.lookup subId).getD BatchBuffer.new =
      ((m.buffers.lookup subId).getD StampedBuffer.new).toBatch enc subId := by
    rw [h.lookup]
    cases m.buffers.lookup subId <;> rfl
  have hadd := @StampedBuffer.addFrame_toBatch σ enc subId
    ((m.buffers.lookup subId).getD StampedBuffer.new) x now
  rw [← hb] at hadd
  refine ⟨⟨?_, fun k => ?_⟩, hadd.2.symm⟩
  · show (bytes.buffers.insert subId _).keys = (m.buffers.insert subId _).keys
    rw [AList.keys_insert, AList.keys_insert, h.keys]
  · show (bytes.buffers.insert subId _).lookup k = ((m.buffers.insert subId _).lookup k).map _
    rw [Map.lookup_insert_ite, Map.lookup_insert_ite]
    split
    · next hk =>
      subst hk
      exact congrArg some hadd.1.symm
    · exact h.lookup k

theorem simulates_flushSub (h : Simulates enc m bytes) (subId : String) :
    Simulates enc (m.flushSub subId).1 (bytes.flushSub subId).1 ∧
      (bytes.flushSub subId).2 =
        (m.flushSub subId).2.map (StampedBuffer.payload enc subId) := by
  unfold flushSub BatchBufferManager.flushSub
  rw [h.lookup]
  cases m.buffers.lookup subId with
  | none => exact ⟨h, rfl⟩
  | some b =>
    simp only [Option.map_some, BatchBuffer.take, StampedBuffer.toBatch]
    by_cases hb : b.items = []
    · rw [if_pos (StampedBuffer.payload_eq_nil.mpr hb), if_pos (List.isEmpty_iff.mpr hb)]
      exact ⟨h, rfl⟩
    · rw [if_neg (fun h => hb (StampedBuffer.payload_eq_nil.mp h)),
        if_neg (fun h => hb (List.isEmpty_iff.mp h))]
      refine ⟨⟨?_, fun k => ?_⟩, rfl⟩
      · show (bytes.buffers.erase subId).keys = (m.buffers.erase subId).keys
        rw [AList.keys_erase, AList.keys_erase, h.keys]
      · show (bytes.buffers.erase subId).lookup k = ((m.buffers.erase subId).lookup k).map _
        rw [Map.lookup_erase_ite, Map.lookup_erase_ite]
        split
        · rfl
        · exact h.lookup k

theorem simulates_flushSubs (h : Simulates enc m bytes) (subIds : List String) :
    Simulates enc (m.flushSubs subIds).1 (bytes.flushSubs subIds).1 ∧
      (bytes.flushSubs subIds).2 =
        (m.flushSubs subIds).2.map fun p => StampedBuffer.payload enc p.1 p.2 := by
  induction subIds generalizing m bytes with
  | nil => exact ⟨h, rfl⟩
  | cons subId rest ih =>
    obtain ⟨hone, hpayload⟩ := simulates_flushSub h subId
    obtain ⟨hrest, hpayloads⟩ := ih hone
    refine ⟨hrest, ?_⟩
    show (bytes.flushSub subId).2.toList ++ ((bytes.flushSub subId).1.flushSubs rest).2 = _
    rw [hpayload, hpayloads, flushSubs, map_append]
    cases (m.flushSub subId).2 <;> rfl

theorem simulates_drainTimedOut (h : Simulates enc m bytes) (iter : IterOrder String) (now : ℕ) :
    Simulates enc (m.drainTimedOut iter now).1 (bytes.drainTimedOut iter now).1 ∧
      (bytes.drainTimedOut iter now).2 =
        (m.drainTimedOut iter now).2.map fun p => StampedBuffer.payload enc p.1 p.2 := by
  have hdue : (iter.order bytes.buffers.keys).filter (fun subId =>
        (bytes.buffers.lookup subId).any fun b => b.timedOut now)
      = (iter.order m.buffers.keys).filter fun subId =>
        (m.buffers.lookup subId).any fun b => b.timedOut now := by
    rw [h.keys]
    congr 1
    funext subId
    rw [h.lookup]
    cases m.buffers.lookup subId with
    | none => rfl
    | some b =>
      -- a buffer has bytes when it has messages
      have hnil : (StampedBuffer.payload enc subId b.items ≠ []) ↔ (!b.items.isEmpty) = true := by
        rw [Bool.not_eq_true', ← Bool.not_eq_true, List.isEmpty_iff]
        exact not_congr StampedBuffer.payload_eq_nil
      simp only [Option.map_some, Option.any_some, BatchBuffer.timedOut, StampedBuffer.timedOut,
        StampedBuffer.toBatch, hnil]
  rw [drainTimedOut, BatchBufferManager.drainTimedOut, hdue]
  exact simulates_flushSubs h _

/-! ### The order of the messages -/

theorem items_addMessage_ne (enc : σ → Bytes) (m : StampedBatches σ) {subId k : String}
    (hk : k ≠ subId) (x : σ) (now : ℕ) : (m.addMessage enc subId x now).1.items k = m.items k := by
  show ((AList.lookup k (m.buffers.insert subId _)).getD StampedBuffer.new).items = _
  rw [Map.lookup_insert_ite, if_neg hk]
  rfl

/-- What `add_message` returns and then what it keeps is what there was and the
new message, less what an overrun loses. -/
theorem addMessage_sublist (enc : σ → Bytes) (m : StampedBatches σ) (subId : String) (x : σ)
    (now : ℕ) :
    ((m.addMessage enc subId x now).2.getD [] ++
      (m.addMessage enc subId x now).1.items subId).Sublist (m.items subId ++ [x]) := by
  have hitems : (m.addMessage enc subId x now).1.items subId =
      (((m.buffers.lookup subId).getD StampedBuffer.new).addFrame enc subId x now).1.items := by
    show ((AList.lookup subId (m.buffers.insert subId _)).getD StampedBuffer.new).items = _
    rw [Map.lookup_insert_ite, if_pos rfl]
    rfl
  rw [hitems]
  exact StampedBuffer.addFrame_sublist _ x now

theorem items_flushSub_ne (m : StampedBatches σ) {subId k : String} (hk : k ≠ subId) :
    (m.flushSub subId).1.items k = m.items k := by
  unfold flushSub
  cases m.buffers.lookup subId with
  | none => rfl
  | some b =>
    dsimp only
    split
    · rfl
    · show ((AList.lookup k (m.buffers.erase subId)).getD StampedBuffer.new).items = _
      rw [Map.lookup_erase_ite, if_neg hk]
      rfl

/-- Messages leave a buffer in the order they came in. -/
theorem flushSub_items (m : StampedBatches σ) (subId : String) :
    (m.flushSub subId).2.getD [] ++ (m.flushSub subId).1.items subId = m.items subId := by
  unfold flushSub
  cases hb : m.buffers.lookup subId with
  | none => rfl
  | some b =>
    have hitems : m.items subId = b.items := by
      rw [items, hb]
      rfl
    dsimp only
    split
    · rfl
    · show b.items ++ ((AList.lookup subId (m.buffers.erase subId)).getD StampedBuffer.new).items = _
      rw [Map.lookup_erase_ite, if_pos rfl, hitems]
      exact append_nil _

theorem items_flushSub_self (m : StampedBatches σ) (subId : String) :
    (m.flushSub subId).1.items subId = [] := by
  unfold flushSub
  cases hb : m.buffers.lookup subId with
  | none =>
    show m.items subId = []
    rw [items, hb]
    rfl
  | some b =>
    dsimp only
    split
    · next hempty =>
      show m.items subId = []
      rw [items, hb]
      exact List.isEmpty_iff.mp hempty
    · show ((AList.lookup subId (m.buffers.erase subId)).getD StampedBuffer.new).items = _
      rw [Map.lookup_erase_ite, if_pos rfl]
      rfl

section Picks

variable {β : Type} (pick : String → σ → Option β) {s : String}

def picks (payloads : List (String × List σ)) : List β :=
  payloads.flatMap fun p => p.2.filterMap (pick p.1)

theorem picks_append (xs ys : List (String × List σ)) :
    picks pick (xs ++ ys) = picks pick xs ++ picks pick ys :=
  flatMap_append

theorem picks_ofPayload (subId : String) (payload : Option (List σ)) :
    picks pick (payload.toList.map fun items => (subId, items)) =
      (payload.getD []).filterMap (pick subId) := by
  cases payload with
  | none => rfl
  | some items => exact append_nil _

/-- Of the messages one looks for, waiting for one subscription only, a sweep
sends the first ones and keeps the rest. -/
theorem flushSubs_picks (m : StampedBatches σ)
    (hpick : ∀ k, k ≠ s → (m.items k).filterMap (pick k) = []) (subIds : List String) :
    picks pick (m.flushSubs subIds).2 ++ ((m.flushSubs subIds).1.items s).filterMap (pick s) =
        (m.items s).filterMap (pick s) ∧
      ∀ k, k ≠ s → ((m.flushSubs subIds).1.items k).filterMap (pick k) = [] := by
  induction subIds generalizing m with
  | nil => exact ⟨rfl, hpick⟩
  | cons subId rest ih =>
    have hflush := flushSub_items m subId
    have hafter : ∀ k, k ≠ s → ((m.flushSub subId).1.items k).filterMap (pick k) = [] := by
      intro k hk
      by_cases hks : k = subId
      · subst hks
        have hnone := hpick k hk
        rw [← hflush, filterMap_append] at hnone
        exact (List.append_eq_nil_iff.mp hnone).2
      · rw [items_flushSub_ne m hks]
        exact hpick k hk
    obtain ⟨hrest, hothers⟩ := ih (m.flushSub subId).1 hafter
    refine ⟨?_, hothers⟩
    show picks pick ((m.flushSub subId).2.toList.map (fun items => (subId, items)) ++
        ((m.flushSub subId).1.flushSubs rest).2) ++
      (((m.flushSub subId).1.flushSubs rest).1.items s).filterMap (pick s) = _
    rw [picks_append, append_assoc, hrest, picks_ofPayload]
    by_cases hks : s = subId
    · subst hks
      rw [← filterMap_append, hflush]
    · have hnone := hpick subId (Ne.symm hks)
      rw [← hflush, filterMap_append] at hnone
      rw [(List.append_eq_nil_iff.mp hnone).1, items_flushSub_ne m hks]
      rfl

theorem drainTimedOut_picks (m : StampedBatches σ)
    (hpick : ∀ k, k ≠ s → (m.items k).filterMap (pick k) = []) (iter : IterOrder String) (now : ℕ) :
    picks pick (m.drainTimedOut iter now).2 ++
        ((m.drainTimedOut iter now).1.items s).filterMap (pick s) =
        (m.items s).filterMap (pick s) ∧
      ∀ k, k ≠ s → ((m.drainTimedOut iter now).1.items k).filterMap (pick k) = [] :=
  flushSubs_picks pick m hpick _

end Picks

end StampedBatches

end Nipworker
