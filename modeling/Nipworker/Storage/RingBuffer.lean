/-
The ring buffer of one shard (`storage/db/ring_buffer.rs`).

The buffer holds the events as frames, oldest first; events are evicted from
the front to make room, and an event is known by its global offset: the number
of bytes that were in front of it since the beginning.  An offset stays valid
until its event is evicted, and is below the head from then on.
-/
import Nipworker.Lib.Bytes

namespace Nipworker

open List

/-- `DatabaseError`, as far as the storage uses it. -/
inductive DatabaseError
  | notInitialized
  | storageError (message : String)
  | lockError
  deriving DecidableEq, Repr

/-- `RingBufferStorage`. -/
structure RingBuffer where
  maxBufferSize : ℕ
  buffer : Bytes
  initialized : Bool
  headOffset : ℕ
  deriving DecidableEq

namespace RingBuffer

def new (maxBufferSize : ℕ) : RingBuffer :=
  { maxBufferSize := maxBufferSize, buffer := [], initialized := false, headOffset := 0 }

/-- `RingBufferStorage::initialize`: nothing is loaded here. -/
def initializeStorage (r : RingBuffer) : RingBuffer := { r with initialized := true }

/-- The scan of `evict_to_fit`: how many bytes to take off the front, whole
events at a time.  A length that does not fit clears everything. -/
def evictScan (mustFree : ℕ) (rest : Bytes) : ℕ :=
  if mustFree = 0 then 0
  else if rest.length < 4 then 0
  else
    let total := 4 + U32.ofLeBytes rest
    if total > rest.length then rest.length
    else total + evictScan (mustFree - total) (rest.drop total)
termination_by rest.length
decreasing_by
  rw [length_drop]
  omega

def evictToFit (r : RingBuffer) (needed : ℕ) : RingBuffer :=
  if r.buffer.length + needed ≤ r.maxBufferSize then r
  else
    let p := evictScan (r.buffer.length + needed - r.maxBufferSize) r.buffer
    { r with buffer := r.buffer.drop p, headOffset := r.headOffset + p }

def addEvent (r : RingBuffer) (eventData : Bytes) : Except DatabaseError (RingBuffer × ℕ) :=
  let totalSize := 4 + eventData.length
  if totalSize > r.maxBufferSize then
    .error (.storageError ("Event too large (" ++ toString totalSize ++ " bytes) for buffer ("
      ++ toString r.maxBufferSize ++ " bytes)"))
  else
    let r := r.evictToFit totalSize
    .ok ({ r with buffer := r.buffer ++ frame eventData }, r.headOffset + r.buffer.length)

/-- `none` when the offset is evicted or no complete event is there. -/
def getEventAtOffset (r : RingBuffer) (offset : ℕ) : Except DatabaseError (Option Bytes) :=
  if r.initialized = false then .error .notInitialized
  else if offset < r.headOffset then .ok none
  else
    let rel := offset - r.headOffset
    if rel + 4 > r.buffer.length then .ok none
    else
      let size := U32.ofLeBytes (r.buffer.drop rel)
      if size = 0 then .ok none
      else if rel + 4 + size > r.buffer.length then .ok none
      else .ok (some ((r.buffer.drop (rel + 4)).take size))

def containsOffset (r : RingBuffer) (offset : ℕ) : Bool :=
  if r.initialized = false then false
  else if offset < r.headOffset then false
  else
    let rel := offset - r.headOffset
    if rel + 4 > r.buffer.length then false
    else
      let size := U32.ofLeBytes (r.buffer.drop rel)
      if size = 0 then false
      else rel + 4 + size ≤ r.buffer.length

/-- `extract_events_from_buffer`: the offsets of the events in a buffer that
starts at the given one. -/
def extractOffsets (offset : ℕ) (rest : Bytes) : List ℕ :=
  if rest.length < 4 then []
  else
    let size := U32.ofLeBytes rest
    if size = 0 ∨ 4 + size > rest.length then []
    else offset :: extractOffsets (offset + (4 + size)) (rest.drop (4 + size))
termination_by rest.length
decreasing_by
  rw [length_drop]
  omega

def loadEvents (r : RingBuffer) : List ℕ := extractOffsets r.headOffset r.buffer

def saveToBytes (r : RingBuffer) : Bytes := r.buffer

/-- The validation of `load_from_bytes`: whole events with no empty one among
them, up to the end. -/
def validateLog (p : ℕ) (rest : Bytes) : Except String Unit :=
  if rest.length < 4 then
    if rest = [] then .ok ()
    else .error ("Trailing bytes at position " ++ toString p ++ ": " ++ toString rest.length
      ++ " bytes remaining")
  else
    let size := U32.ofLeBytes rest
    if size = 0 then .error ("Invalid event size 0 at position " ++ toString p)
    else if 4 + size > rest.length then
      .error ("Incomplete event at position " ++ toString p ++ ": expected " ++ toString (4 + size)
        ++ " bytes, got " ++ toString rest.length)
    else validateLog (p + (4 + size)) (rest.drop (4 + size))
termination_by rest.length
decreasing_by
  rw [length_drop]
  omega

def loadFromBytes (r : RingBuffer) (bytes : Bytes) : Except String RingBuffer :=
  match validateLog 0 bytes with
  | .error e => .error e
  | .ok () => .ok { r with buffer := bytes, headOffset := 0 }

/-! ### The buffer as a window on a log -/

/-- Payloads that can be told apart in the buffer: not empty, and short enough
for their length. -/
def Storable (payload : Bytes) : Prop := payload ≠ [] ∧ payload.length < 2 ^ 32

theorem Storable.length_pos {payload : Bytes} (h : Storable payload) : 0 < payload.length :=
  List.length_pos_iff.mpr h.1

/-- The buffer holds what is left of a history of payloads once the first `k`
are evicted. -/
structure Window (r : RingBuffer) (history : List Bytes) (k : ℕ) : Prop where
  le : k ≤ history.length
  buffer : r.buffer = frameLog (history.drop k)
  head : r.headOffset = framePos history k
  storable : ∀ payload ∈ history, Storable payload

theorem window_new (maxBufferSize : ℕ) : (new maxBufferSize).Window [] 0 :=
  ⟨le_refl _, rfl, rfl, fun _ h => absurd h not_mem_nil⟩

variable {r : RingBuffer} {history : List Bytes} {k : ℕ} (payloads : List Bytes)

theorem Window.initializeStorage (h : r.Window history k) : r.initializeStorage.Window history k :=
  ⟨h.le, h.buffer, h.head, h.storable⟩

/-- How many payloads are evicted to free a number of bytes. -/
def evictCount : ℕ → List Bytes → ℕ
  | _, [] => 0
  | mustFree, payload :: rest =>
    if mustFree = 0 then 0 else evictCount (mustFree - (4 + payload.length)) rest + 1

theorem evictScan_frameLog (hst : ∀ payload ∈ payloads, Storable payload) : ∀ mustFree : ℕ,
    evictScan mustFree (frameLog payloads) = framePos payloads (evictCount mustFree payloads) := by
  induction payloads with
  | nil =>
    intro mustFree
    rw [evictScan]
    split <;> rfl
  | cons payload rest ih =>
    intro mustFree
    have hlen := length_frameLog_cons payload rest
    have hsize : U32.ofLeBytes (frameLog (payload :: rest)) = payload.length :=
      ofLeBytes_frameLog (hst payload mem_cons_self).2 _
    have hdrop : (frameLog (payload :: rest)).drop (4 + payload.length) = frameLog rest :=
      drop_left' (length_frame payload)
    rw [evictScan, evictCount]
    by_cases hfree : mustFree = 0
    · rw [if_pos hfree, if_pos hfree, framePos_zero]
    · rw [if_neg hfree, if_neg hfree, if_neg (by omega), hsize]
      dsimp only
      rw [if_neg (by omega), hdrop, ih (fun x hx => hst x (mem_cons_of_mem _ hx)),
        framePos_cons_succ]

theorem evictCount_spec : ∀ mustFree : ℕ,
    evictCount mustFree payloads ≤ payloads.length ∧
      (mustFree ≤ framePos payloads (evictCount mustFree payloads) ∨
        evictCount mustFree payloads = payloads.length) := by
  induction payloads with
  | nil =>
    intro mustFree
    exact ⟨le_refl _, .inr rfl⟩
  | cons payload rest ih =>
    intro mustFree
    rw [evictCount]
    by_cases hfree : mustFree = 0
    · rw [if_pos hfree]
      exact ⟨Nat.zero_le _, .inl (by omega)⟩
    · rw [if_neg hfree, framePos_cons_succ, length_cons]
      obtain ⟨hle, h⟩ := ih (mustFree - (4 + payload.length))
      exact ⟨by omega, h.elim (fun h => .inl (by omega)) (fun h => .inr (by omega))⟩

theorem Window.evictToFit (h : r.Window history k) {needed : ℕ} (hfit : needed ≤ r.maxBufferSize) :
    ∃ k', k ≤ k' ∧ (r.evictToFit needed).Window history k' ∧
      (r.evictToFit needed).maxBufferSize = r.maxBufferSize ∧
      (r.evictToFit needed).initialized = r.initialized ∧
      (r.evictToFit needed).buffer.length + needed ≤ r.maxBufferSize := by
  unfold RingBuffer.evictToFit
  by_cases hroom : r.buffer.length + needed ≤ r.maxBufferSize
  · rw [if_pos hroom]
    exact ⟨k, le_refl k, h, rfl, rfl, hroom⟩
  · rw [if_neg hroom]
    have hst : ∀ payload ∈ history.drop k, Storable payload :=
      fun payload hp => h.storable payload (mem_of_mem_drop hp)
    have hscan := evictScan_frameLog (history.drop k) hst
      (r.buffer.length + needed - r.maxBufferSize)
    obtain ⟨hle, hfree⟩ := evictCount_spec (history.drop k)
      (r.buffer.length + needed - r.maxBufferSize)
    rw [← h.buffer] at hscan
    dsimp only
    rw [hscan]
    generalize evictCount (r.buffer.length + needed - r.maxBufferSize) (history.drop k) = n
      at hle hfree
    have hdrop : r.buffer.drop (framePos (history.drop k) n) = frameLog (history.drop (k + n)) := by
      rw [h.buffer, drop_frameLog, drop_drop]
    rw [length_drop] at hle
    refine ⟨k + n, by omega, ⟨?_, hdrop, ?_, h.storable⟩, rfl, rfl, ?_⟩
    · have := h.le
      omega
    · rw [framePos_add, ← h.head]
    · rw [length_drop]
      rcases hfree with hfree | hall
      · omega
      · -- everything is evicted: the buffer is empty
        rw [hall, framePos_length, ← h.buffer]
        omega

/-- **Adding an event**: the history is one payload longer, the window moves
forward, and the offset that is returned is where the event begins. -/
theorem Window.addEvent (h : r.Window history k) {eventData : Bytes} (hdata : Storable eventData)
    (hfit : 4 + eventData.length ≤ r.maxBufferSize) :
    ∃ k' r', r.addEvent eventData = .ok (r', framePos history history.length) ∧ k ≤ k' ∧
      r'.Window (history ++ [eventData]) k' ∧ r'.maxBufferSize = r.maxBufferSize ∧
      r'.initialized = r.initialized ∧ r'.buffer.length ≤ r'.maxBufferSize := by
  obtain ⟨k', hk, hwin, hmax, hinit, hroom⟩ := h.evictToFit hfit
  have hoffset : (r.evictToFit (4 + eventData.length)).headOffset
      + (r.evictToFit (4 + eventData.length)).buffer.length = framePos history history.length := by
    rw [hwin.head, hwin.buffer, ← framePos_length, ← framePos_add, length_drop]
    have := hwin.le
    congr 1
    omega
  refine ⟨k', { r.evictToFit (4 + eventData.length) with
    buffer := (r.evictToFit (4 + eventData.length)).buffer ++ frame eventData }, ?_, hk,
    ⟨?_, ?_, ?_, ?_⟩, hmax, hinit, ?_⟩
  · unfold RingBuffer.addEvent
    rw [if_neg (by omega), ← hoffset]
  · rw [length_append]
    have := hwin.le
    omega
  · show (r.evictToFit (4 + eventData.length)).buffer ++ frame eventData = _
    rw [drop_append_of_le_length hwin.le, frameLog_append, frameLog_singleton, hwin.buffer]
  · rw [framePos_append hwin.le]
    exact hwin.head
  · intro payload hpayload
    rcases List.mem_append.mp hpayload with hp | hp
    · exact h.storable payload hp
    · rwa [List.mem_singleton.mp hp]
  · show ((r.evictToFit (4 + eventData.length)).buffer ++ frame eventData).length
      ≤ (r.evictToFit (4 + eventData.length)).maxBufferSize
    rw [length_append, length_frame, hmax]
    omega

/-! ### Reading -/

theorem Window.split (h : r.Window history k)
    {i : ℕ} (hk : k ≤ i) {bytes : Bytes} (hget : history[i]? = some bytes) :
    ∃ rest, r.buffer.drop (framePos history i - r.headOffset) = frame bytes ++ rest ∧
      r.headOffset ≤ framePos history i ∧
      r.buffer.length = framePos history i - r.headOffset + (4 + bytes.length) + rest.length := by
  have hlt : i < history.length := (List.getElem?_eq_some_iff.mp hget).1
  obtain ⟨j, rfl⟩ : ∃ j, i = k + j := ⟨i - k, by omega⟩
  have hpos : framePos history (k + j) - r.headOffset = framePos (history.drop k) j := by
    rw [framePos_add, h.head, Nat.add_sub_cancel_left]
  have hsplit : r.buffer.drop (framePos (history.drop k) j)
      = frame bytes ++ frameLog (history.drop (k + j + 1)) := by
    rw [h.buffer, drop_frameLog, drop_drop, drop_eq_getElem_cons hlt,
      frameLog_cons, (List.getElem?_eq_some_iff.mp hget).2]
  have hbound : framePos (history.drop k) j ≤ r.buffer.length := by
    rw [h.buffer, ← framePos_length]
    refine framePos_le ?_ (le_refl _)
    rw [length_drop]
    omega
  refine ⟨frameLog (history.drop (k + j + 1)), by rw [hpos, hsplit], ?_, ?_⟩
  · rw [framePos_add, h.head]
    omega
  · have hlen := congrArg List.length hsplit
    rw [length_drop, length_append, length_frame] at hlen
    rw [hpos]
    omega

/-- **Reading an event at its offset**: its own bytes, or nothing once it is
evicted. -/
theorem Window.getEventAtOffset
    (h : r.Window history k) (hinit : r.initialized = true) {i : ℕ} {bytes : Bytes}
    (hget : history[i]? = some bytes) :
    r.getEventAtOffset (framePos history i) = .ok (if i < k then none else some bytes) := by
  unfold RingBuffer.getEventAtOffset
  rw [if_neg (by rw [hinit]; decide)]
  by_cases hk : i < k
  · have := framePos_lt hk h.le
    rw [if_pos (by rw [h.head]; exact this), if_pos hk]
  · obtain ⟨rest, hdrop, hhead, hlen⟩ := h.split (Nat.le_of_not_lt hk) hget
    have hbytes := h.storable bytes (mem_of_getElem? hget)
    have hpos := hbytes.length_pos
    rw [if_neg (by omega), if_neg hk]
    dsimp only
    rw [if_neg (by omega), hdrop, ofLeBytes_frameLog hbytes.2, if_neg (by omega),
      if_neg (by omega), ← drop_drop, hdrop, take_drop_frame]

theorem containsOffset_iff (r : RingBuffer) (offset : ℕ) :
    r.containsOffset offset = true ↔ ∃ bytes, r.getEventAtOffset offset = .ok (some bytes) := by
  unfold containsOffset RingBuffer.getEventAtOffset
  by_cases h1 : r.initialized = false
  · simp [h1]
  by_cases h2 : offset < r.headOffset
  · simp [h1, h2]
  by_cases h3 : offset - r.headOffset + 4 > r.buffer.length
  · simp [h1, h2, h3]
  by_cases h4 : U32.ofLeBytes (r.buffer.drop (offset - r.headOffset)) = 0
  · simp [h1, h2, h3, h4]
  by_cases h5 : offset - r.headOffset + 4 + U32.ofLeBytes (r.buffer.drop (offset - r.headOffset))
      > r.buffer.length
  · simp [h1, h2, h3, h4, h5]
  · simp [h1, h2, h3, h4, h5, Nat.le_of_not_lt h5]

theorem containsOffset_initialized {offset : ℕ}
    (h : r.containsOffset offset = true) : r.initialized = true := by
  unfold containsOffset at h
  split at h
  · cases h
  · next hinit => simpa using hinit

theorem Window.live_addEvent {r' : RingBuffer}
    (h : r.Window history k) (hinit : r.initialized = true) {eventData : Bytes}
    (hdata : Storable eventData) {offset : ℕ} (hadd : r.addEvent eventData = .ok (r', offset)) :
    r'.containsOffset offset = true := by
  by_cases hfit : 4 + eventData.length ≤ r.maxBufferSize
  · obtain ⟨k', s, hadd', -, hwin, -, hinit', -⟩ := h.addEvent hdata hfit
    obtain ⟨rfl, rfl⟩ := Prod.mk.inj (Except.ok.inj (hadd'.symm.trans hadd))
    -- the frame of the event is in the buffer, so the window has not passed it
    have hbuffer : s.buffer
        = (r.evictToFit (4 + eventData.length)).buffer ++ frame eventData := by
      rw [RingBuffer.addEvent, if_neg (by omega)] at hadd
      exact (congrArg RingBuffer.buffer (Prod.mk.inj (Except.ok.inj hadd)).1).symm
    have hk : ¬ history.length < k' := by
      intro hlt
      have hempty := hwin.buffer
      rw [drop_eq_nil_of_le (by rw [length_append]; exact hlt), hbuffer] at hempty
      have hlen := congrArg List.length hempty
      rw [length_append, length_frame] at hlen
      exact absurd hlen (by show _ ≠ 0; omega)
    have hget : (history ++ [eventData])[history.length]? = some eventData :=
      List.getElem?_concat_length
    have hread := hwin.getEventAtOffset (hinit'.trans hinit) hget
    rw [framePos_append (le_refl _), if_neg hk] at hread
    exact (containsOffset_iff s _).mpr ⟨eventData, hread⟩
  · rw [RingBuffer.addEvent, if_pos (by omega)] at hadd
    cases hadd

theorem containsOffset_head {offset : ℕ} (h : r.containsOffset offset = true) :
    r.headOffset ≤ offset := by
  unfold containsOffset at h
  split at h
  · cases h
  · split at h
    · cases h
    · omega

/-! ### Listing, saving and loading -/

theorem extractOffsets_frameLog (hst : ∀ payload ∈ payloads, Storable payload) : ∀ offset : ℕ,
    extractOffsets offset (frameLog payloads)
      = (List.range payloads.length).map fun i => offset + framePos payloads i := by
  induction payloads with
  | nil =>
    intro offset
    rw [extractOffsets]
    rfl
  | cons payload rest ih =>
    intro offset
    have hlen := length_frameLog_cons payload rest
    have hpay := hst payload mem_cons_self
    have hpos := hpay.length_pos
    have hsize : U32.ofLeBytes (frameLog (payload :: rest)) = payload.length :=
      ofLeBytes_frameLog hpay.2 _
    have hdrop : (frameLog (payload :: rest)).drop (4 + payload.length) = frameLog rest :=
      drop_left' (length_frame payload)
    rw [extractOffsets, if_neg (by omega), hsize]
    dsimp only
    rw [if_neg (by omega), hdrop, ih (fun x hx => hst x (mem_cons_of_mem _ hx)),
      length_cons, range_succ_eq_map, map_cons, map_map]
    refine congrArg₂ List.cons rfl (map_congr_left fun i _ => ?_)
    show _ = offset + framePos (payload :: rest) (i + 1)
    rw [framePos_cons_succ]
    omega

/-- The offsets that are listed are those of the window. -/
theorem Window.loadEvents (h : r.Window history k) :
    r.loadEvents = (List.range (history.length - k)).map fun j => framePos history (k + j) := by
  rw [RingBuffer.loadEvents, h.buffer, extractOffsets_frameLog, length_drop]
  · refine map_congr_left fun j _ => ?_
    rw [framePos_add, h.head]
  · exact fun payload hp => h.storable payload (mem_of_mem_drop hp)

theorem validateLog_frameLog (hst : ∀ payload ∈ payloads, Storable payload) : ∀ p : ℕ,
    validateLog p (frameLog payloads) = .ok () := by
  induction payloads with
  | nil =>
    intro p
    rw [validateLog]
    rfl
  | cons payload rest ih =>
    intro p
    have hlen := length_frameLog_cons payload rest
    have hpay := hst payload mem_cons_self
    have hpos := hpay.length_pos
    have hsize : U32.ofLeBytes (frameLog (payload :: rest)) = payload.length :=
      ofLeBytes_frameLog hpay.2 _
    have hdrop : (frameLog (payload :: rest)).drop (4 + payload.length) = frameLog rest :=
      drop_left' (length_frame payload)
    rw [validateLog, if_neg (by omega), hsize]
    dsimp only
    rw [if_neg (by omega), if_neg (by omega), hdrop]
    exact ih (fun x hx => hst x (mem_cons_of_mem _ hx)) _

end RingBuffer

end Nipworker
