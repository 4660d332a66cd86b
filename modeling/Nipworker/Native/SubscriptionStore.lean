/-
The subscription buffers of the native engine (`crates/native-ffi/src/lib.rs`).

Each subscription has an allocation of a fixed size.  Its first four bytes hold the write
cursor, behind it stand the payloads, each behind its length: the layout of the buffers of
the browser's manager, with a host that may move the cursor back once it has read everything.
-/
import Nipworker.Client.MessageBuffer
import Nipworker.Lib.Map

namespace Nipworker

open List

/-! ### One subscription -/

/-- `NativeSubscription`, with the bytes of its backing. -/
structure NativeSubscription where
  backing : Bytes
  refCount : ℤ
  closeOnCleanup : Bool

namespace NativeSubscription

open ArrayBufferReader (setBytes)

def new (bufferSize : ℕ) (closeOnCleanup : Bool) : NativeSubscription where
  backing := setBytes (List.replicate (max bufferSize 4) 0) 0 (U32.toLeBytes 4)
  refCount := 1
  closeOnCleanup := closeOnCleanup

def writePos (self : NativeSubscription) : ℕ := U32.ofLeBytes self.backing

def tryReset (self : NativeSubscription) (expectedWritePos : ℕ) : NativeSubscription × Bool :=
  if self.writePos ≠ expectedWritePos then (self, false)
  else ({ self with backing := setBytes self.backing 0 (U32.toLeBytes 4) }, true)

def appendPayload (self : NativeSubscription) (payload : Bytes) : NativeSubscription × Bool :=
  let writePos := self.writePos
  let required := 4 + payload.length
  if writePos + required > self.backing.length then (self, false)
  else
    let buffer := setBytes self.backing writePos (U32.toLeBytes payload.length)
    let buffer := setBytes buffer (writePos + 4) payload
    -- the cursor is cast to 32 bits
    let buffer := setBytes buffer 0 (U32.toLeBytes (writePos + required))
    ({ self with backing := buffer }, true)

end NativeSubscription

/-! ### The store -/

/-- The subscriptions, by their ids. -/
structure NativeSubscriptionStore where
  subscriptions : Map String NativeSubscription

/-- What becomes of a payload. -/
inductive AppendOutcome
  | written
  | full (closeOnCleanup : Bool)
  | missing
deriving DecidableEq

namespace NativeSubscriptionStore

def new : NativeSubscriptionStore := { subscriptions := ∅ }

def get (self : NativeSubscriptionStore) (subId : String) : Option NativeSubscription :=
  self.subscriptions.lookup subId

def set (self : NativeSubscriptionStore) (subId : String) (sub : NativeSubscription) :
    NativeSubscriptionStore :=
  { subscriptions := self.subscriptions.insert subId sub }

def register (self : NativeSubscriptionStore) (subId : String) (bufferSize : ℕ)
    (closeOnCleanup : Bool) : NativeSubscriptionStore :=
  match self.get subId with
  | some existing => self.set subId { existing with refCount := existing.refCount + 1 }
  | none => self.set subId (NativeSubscription.new bufferSize closeOnCleanup)

def retain (self : NativeSubscriptionStore) (subId : String) : NativeSubscriptionStore × Bool :=
  match self.get subId with
  | some existing => (self.set subId { existing with refCount := existing.refCount + 1 }, true)
  | none => (self, false)

def release (self : NativeSubscriptionStore) (subId : String) : NativeSubscriptionStore :=
  match self.get subId with
  | some existing => self.set subId { existing with refCount := existing.refCount - 1 }
  | none => self

def appendPayload (self : NativeSubscriptionStore) (subId : String) (payload : Bytes) :
    NativeSubscriptionStore × AppendOutcome :=
  match self.get subId with
  | some existing =>
    match existing.appendPayload payload with
    | (existing, true) => (self.set subId existing, .written)
    | (existing, false) => (self, .full existing.closeOnCleanup)
  | none => (self, .missing)

@[simp] theorem get_set (self : NativeSubscriptionStore) (subId : String)
    (sub : NativeSubscription) (k : String) :
    (self.set subId sub).get k = if k = subId then some sub else self.get k :=
  Map.lookup_insert_ite self.subscriptions subId k sub

end NativeSubscriptionStore

/-! ### Batches -/

/-- What the caller is to do. -/
inductive CallbackAction
  | payload (bytes : Bytes)
  | wake (subId : String)
deriving DecidableEq

/-- What a batch comes to. -/
structure BatchOutcome where
  actions : List CallbackAction
  unsubscribes : List String
  droppedEvents : ℕ
  droppedBytes : ℕ
  missingEvents : ℕ
  missingBytes : ℕ

/-- The variables of the loop of `apply_event_batch`; the sets that only keep the log short
are left out. -/
structure BatchLoop where
  store : NativeSubscriptionStore
  outcome : BatchOutcome
  unsubscribeIds : Finset String
  woken : Finset String

/-- `usize::saturating_add`, with 64 bits. -/
def saturatingAdd (a b : ℕ) : ℕ := min (a + b) (2 ^ 64 - 1)

def IsDirect (subId : String) : Prop := subId = "" ∨ subId = "crypto"

instance (subId : String) : Decidable (IsDirect subId) := inferInstanceAs (Decidable (_ ∨ _))

def BatchLoop.event (loop : BatchLoop) (subId : String) (bytes : Bytes) : BatchLoop :=
  let outcome := loop.outcome
  if IsDirect subId then
    { loop with outcome := { outcome with actions := outcome.actions ++ [.payload bytes] } }
  else
    match loop.store.appendPayload subId bytes with
    | (store, .written) =>
      if subId ∈ loop.woken then { loop with store }
      else
        { loop with
          store
          outcome := { outcome with actions := outcome.actions ++ [.wake subId] }
          woken := insert subId loop.woken }
    | (store, .full closeOnCleanup) =>
      let outcome := { outcome with
        droppedEvents := outcome.droppedEvents + 1
        droppedBytes := saturatingAdd outcome.droppedBytes bytes.length }
      if closeOnCleanup ∧ subId ∉ loop.unsubscribeIds then
        { loop with
          store
          outcome := { outcome with unsubscribes := outcome.unsubscribes ++ [subId] }
          unsubscribeIds := insert subId loop.unsubscribeIds }
      else { loop with store, outcome }
    | (store, .missing) =>
      { loop with
        store
        outcome := { outcome with
          droppedEvents := outcome.droppedEvents + 1
          droppedBytes := saturatingAdd outcome.droppedBytes bytes.length
          missingEvents := outcome.missingEvents + 1
          missingBytes := saturatingAdd outcome.missingBytes bytes.length } }

def BatchLoop.start (store : NativeSubscriptionStore) : BatchLoop where
  store := store
  outcome :=
    { actions := [], unsubscribes := [], droppedEvents := 0, droppedBytes := 0
      missingEvents := 0, missingBytes := 0 }
  unsubscribeIds := ∅
  woken := ∅

def BatchLoop.events (loop : BatchLoop) (batch : List (String × Bytes)) : BatchLoop :=
  batch.foldl (fun loop event => loop.event event.1 event.2) loop

/-- A batch of events, and what the caller is to do about it. -/
def applyEventBatch (subscriptions : NativeSubscriptionStore) (batch : List (String × Bytes)) :
    NativeSubscriptionStore × BatchOutcome :=
  let loop := (BatchLoop.start subscriptions).events batch
  (loop.store, loop.outcome)

/-! ### What a batch appends -/

/-- The events of a batch whose payload was appended, in order. -/
def appendedIn (store : NativeSubscriptionStore) : List (String × Bytes) → List (String × Bytes)
  | [] => []
  | (subId, bytes) :: rest =>
    if IsDirect subId then appendedIn store rest
    else
      match store.appendPayload subId bytes with
      | (store, .written) => (subId, bytes) :: appendedIn store rest
      | (store, _) => appendedIn store rest

/-- The payloads among them that belong to a subscription. -/
def appendedTo (subId : String) (store : NativeSubscriptionStore) (batch : List (String × Bytes)) :
    List Bytes :=
  ((appendedIn store batch).filter fun event => event.1 = subId).map Prod.snd

/-- **Wakes.**  A subscription is woken once when a payload was appended to its buffer, and
not at all otherwise. -/
theorem count_wake_events (subId : String) (batch : List (String × Bytes)) (loop : BatchLoop)
    (hloop : loop.outcome.actions.count (.wake subId) = if subId ∈ loop.woken then 1 else 0) :
    (loop.events batch).outcome.actions.count (.wake subId) =
      if subId ∈ loop.woken ∨ appendedTo subId loop.store batch ≠ [] then 1 else 0 := by
  induction batch generalizing loop with
  | nil =>
    have hnone : (subId ∈ loop.woken ∨ appendedTo subId loop.store [] ≠ []) ↔ subId ∈ loop.woken :=
      or_iff_left fun h => h rfl
    rw [if_congr hnone rfl rfl]
    exact hloop
  | cons event rest ih =>
    obtain ⟨id, bytes⟩ := event
    show ((loop.event id bytes).events rest).outcome.actions.count (.wake subId) = _
    by_cases hdirect : IsDirect id
    · -- passed through
      have hevent : loop.event id bytes = { loop with outcome :=
          { loop.outcome with actions := loop.outcome.actions ++ [.payload bytes] } } := by
        rw [BatchLoop.event, if_pos hdirect]
      have hto : appendedTo subId loop.store ((id, bytes) :: rest) =
          appendedTo subId loop.store rest := by
        rw [appendedTo, appendedTo, appendedIn, if_pos hdirect]
      rw [hevent, hto]
      refine ih _ ?_
      rw [count_append, hloop, count_singleton]
      rfl
    · cases hout : loop.store.appendPayload id bytes with
      | mk store outcome =>
      cases outcome with
      | written =>
        have hto : appendedTo subId loop.store ((id, bytes) :: rest) =
            if id = subId then bytes :: appendedTo subId store rest
            else appendedTo subId store rest := by
          simp only [appendedTo, appendedIn, if_neg hdirect, hout, filter_cons,
            decide_eq_true_eq]
          split
          · rfl
          · rfl
        by_cases hwoken : id ∈ loop.woken
        · have hevent : loop.event id bytes = { loop with store } := by
            simp only [BatchLoop.event, if_neg hdirect, hout, if_pos hwoken]
          rw [hevent, ih { loop with store } hloop, hto]
          refine if_congr ?_ rfl rfl
          by_cases hid : id = subId
          · subst hid
            exact iff_of_true (.inl hwoken) (.inl hwoken)
          · rw [if_neg hid]
        · have hevent : loop.event id bytes = { loop with
              store
              outcome := { loop.outcome with actions := loop.outcome.actions ++ [.wake id] }
              woken := insert id loop.woken } := by
            simp only [BatchLoop.event, if_neg hdirect, hout, if_neg hwoken]
          rw [hevent, ih, hto]
          · refine if_congr ?_ rfl rfl
            rw [Finset.mem_insert]
            by_cases hid : id = subId
            · subst hid
              rw [if_pos rfl]
              exact iff_of_true (.inl (.inl rfl)) (.inr (cons_ne_nil _ _))
            · rw [if_neg hid, or_iff_right (Ne.symm hid)]
          · show (loop.outcome.actions ++ [CallbackAction.wake id]).count (.wake subId) =
              if subId ∈ insert id loop.woken then 1 else 0
            by_cases hid : id = subId
            · subst hid
              rw [count_append, hloop, count_singleton_self, if_neg hwoken,
                if_pos (Finset.mem_insert_self id _)]
            · rw [count_append, hloop, count_singleton,
                beq_eq_false_iff_ne.mpr fun h => hid (CallbackAction.wake.inj h),
                if_neg Bool.false_ne_true]
              refine if_congr ?_ rfl rfl
              rw [Finset.mem_insert, or_iff_right (Ne.symm hid)]
      | full closeOnCleanup =>
        have hevent : (loop.event id bytes).outcome.actions = loop.outcome.actions ∧
            (loop.event id bytes).woken = loop.woken ∧ (loop.event id bytes).store = store := by
          simp only [BatchLoop.event, if_neg hdirect, hout]
          split
          · exact ⟨rfl, rfl, rfl⟩
          · exact ⟨rfl, rfl, rfl⟩
        have hto : appendedTo subId loop.store ((id, bytes) :: rest) =
            appendedTo subId store rest := by
          simp only [appendedTo, appendedIn, if_neg hdirect, hout]
        rw [ih _ (by rw [hevent.1, hevent.2.1]; exact hloop), hevent.2.1, hevent.2.2, hto]
      | missing =>
        have hevent : (loop.event id bytes).outcome.actions = loop.outcome.actions ∧
            (loop.event id bytes).woken = loop.woken ∧ (loop.event id bytes).store = store := by
          simp only [BatchLoop.event, if_neg hdirect, hout, and_self]
        have hto : appendedTo subId loop.store ((id, bytes) :: rest) =
            appendedTo subId store rest := by
          simp only [appendedTo, appendedIn, if_neg hdirect, hout]
        rw [ih _ (by rw [hevent.1, hevent.2.1]; exact hloop), hevent.2.1, hevent.2.2, hto]

/-- One wake for a subscription that got something, none for the others. -/
theorem count_wake (subId : String) (store : NativeSubscriptionStore)
    (batch : List (String × Bytes)) :
    (applyEventBatch store batch).2.actions.count (.wake subId) =
      if appendedTo subId store batch ≠ [] then 1 else 0 := by
  rw [applyEventBatch, count_wake_events subId batch (BatchLoop.start store) rfl]
  refine if_congr (or_iff_right ?_) rfl rfl
  exact Finset.notMem_empty subId

theorem NativeSubscription.appendPayload_refused {sub sub' : NativeSubscription} {payload : Bytes}
    (h : sub.appendPayload payload = (sub', false)) : sub' = sub := by
  simp only [NativeSubscription.appendPayload] at h
  split at h
  · exact (Prod.mk.inj h).1.symm
  · exact absurd (Prod.mk.inj h).2 (by decide)

/-- An append writes what `writePayload` of the browser writes. -/
theorem NativeSubscription.appendPayload_eq (sub : NativeSubscription) (payload : Bytes) :
    sub.appendPayload payload =
      ({ sub with backing := (ArrayBufferReader.writePayload sub.backing payload).1 },
        (ArrayBufferReader.writePayload sub.backing payload).2) := by
  have hpos : sub.writePos = ArrayBufferReader.getUint32 sub.backing 0 := rfl
  by_cases hfull : ArrayBufferReader.getUint32 sub.backing 0 + (4 + payload.length) >
      sub.backing.length
  · simp only [NativeSubscription.appendPayload, ArrayBufferReader.writePayload, hpos, if_pos hfull]
  · simp only [NativeSubscription.appendPayload, ArrayBufferReader.writePayload, hpos, if_neg hfull,
      ArrayBufferReader.setUint32]

end Nipworker
