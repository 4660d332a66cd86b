/-
The ring buffer is a bounded first-in first-out log (`storage/db/ring_buffer.rs`).
-/
import Nipworker.Lib.FifoLog
import Nipworker.Storage.RingBuffer

namespace Nipworker

open RingBuffer List

/-- A ring buffer, and the offsets that `add_event` has returned. -/
structure RingLog where
  ring : RingBuffer
  offsets : List ℕ

def RingLog.new (maxBufferSize : ℕ) : RingLog :=
  { ring := (RingBuffer.new maxBufferSize).initializeStorage, offsets := [] }

/-- One call of `add_event`. -/
def RingLog.add (s : RingLog) (eventData : Bytes) : RingLog :=
  match s.ring.addEvent eventData with
  | .ok (ring, offset) => { ring := ring, offsets := s.offsets ++ [offset] }
  | .error _ => s

def frameSize (payload : Bytes) : ℕ := 4 + payload.length

/-- What can be observed of a ring buffer, in terms of a log: every accepted event is read
and found at its offset exactly while it is live, the live ones are listed in order, and
they fit. -/
structure AgreesWithFifo (s : RingLog) (fifo : FifoLog Bytes) : Prop where
  offsets : s.offsets.length = fifo.accepted.length
  read : ∀ (i : ℕ) payload offset, fifo.accepted[i]? = some payload →
    s.offsets[i]? = some offset →
    s.ring.getEventAtOffset offset = .ok (if i < fifo.evicted then none else some payload)
  contains : ∀ (i : ℕ) offset, s.offsets[i]? = some offset →
    (s.ring.containsOffset offset = true ↔ fifo.evicted ≤ i)
  listed : s.ring.loadEvents = s.offsets.drop fifo.evicted
  fits : s.ring.buffer.length ≤ s.ring.maxBufferSize
  capacity : s.ring.maxBufferSize = fifo.capacity

/-! ### Eviction takes the shortest prefix -/

variable (payloads : List Bytes)

theorem total_frameSize : FifoLog.total frameSize payloads = (frameLog payloads).length := by
  induction payloads with
  | nil => rfl
  | cons payload rest ih =>
    rw [length_frameLog_cons, ← ih]
    rfl

theorem total_drop (n : ℕ) :
    FifoLog.total frameSize (payloads.drop n) = (frameLog payloads).length - framePos payloads n := by
  rw [total_frameSize, ← drop_frameLog, length_drop]

theorem evictCount_min : ∀ mustFree n : ℕ,
    n < evictCount mustFree payloads → framePos payloads n < mustFree := by
  induction payloads with
  | nil => exact fun _ n h => absurd h (Nat.not_lt_zero n)
  | cons payload rest ih =>
    intro mustFree n hn
    rw [evictCount] at hn
    split at hn
    · exact absurd hn (Nat.not_lt_zero n)
    · cases n with
      | zero =>
        rw [framePos_zero]
        omega
      | succ n =>
        have hrest := ih (mustFree - (4 + payload.length)) n (by omega)
        rw [framePos_cons_succ]
        omega

theorem evictCount_eq_toEvict {payloads : List Bytes} {needed capacity : ℕ}
    (hfit : needed ≤ capacity) (hfull : capacity < (frameLog payloads).length + needed) :
    evictCount ((frameLog payloads).length + needed - capacity) payloads =
      FifoLog.toEvict frameSize (capacity - needed) payloads := by
  obtain ⟨hle, hfree⟩ := evictCount_spec payloads ((frameLog payloads).length + needed - capacity)
  have hmin := evictCount_min payloads ((frameLog payloads).length + needed - capacity)
  refine FifoLog.eq_toEvict ?_ fun m hm => ?_
  · rw [total_drop]
    rcases hfree with hfree | hall
    · omega
    · rw [hall, framePos_length]
      omega
  · have := hmin m hm
    rw [total_drop]
    omega

variable {r : RingBuffer} {history : List Bytes} {k : ℕ}

theorem window_evictToFit (h : r.Window history k) {needed : ℕ} (hfit : needed ≤ r.maxBufferSize) :
    (r.evictToFit needed).Window history
      (k + FifoLog.toEvict frameSize (r.maxBufferSize - needed) (history.drop k)) := by
  have hlen : r.buffer.length = (frameLog (history.drop k)).length := congrArg List.length h.buffer
  rw [RingBuffer.evictToFit]
  by_cases hroom : r.buffer.length + needed ≤ r.maxBufferSize
  · rw [if_pos hroom]
    have hnone : 0 = FifoLog.toEvict frameSize (r.maxBufferSize - needed) (history.drop k) := by
      refine FifoLog.eq_toEvict ?_ fun m hm => absurd hm (Nat.not_lt_zero m)
      rw [drop_zero, total_frameSize]
      omega
    rw [← hnone]
    exact h
  · rw [if_neg hroom]
    have hst : ∀ payload ∈ history.drop k, Storable payload :=
      fun payload hp => h.storable payload (mem_of_mem_drop hp)
    have hscan : evictScan (r.buffer.length + needed - r.maxBufferSize) r.buffer =
        framePos (history.drop k)
          (FifoLog.toEvict frameSize (r.maxBufferSize - needed) (history.drop k)) := by
      rw [hlen, ← evictCount_eq_toEvict hfit (by omega), ← evictScan_frameLog _ hst, h.buffer]
    dsimp only
    rw [hscan]
    have hle : FifoLog.toEvict frameSize (r.maxBufferSize - needed) (history.drop k)
        ≤ (history.drop k).length := FifoLog.toEvict_le _ _
    generalize FifoLog.toEvict frameSize (r.maxBufferSize - needed) (history.drop k) = n at hle
    rw [length_drop] at hle
    have hk := h.le
    refine ⟨by omega, ?_, ?_, h.storable⟩
    · rw [h.buffer, drop_frameLog, drop_drop]
    · rw [framePos_add, ← h.head]

/-! ### The simulation -/

/-- The buffer is the window on what was accepted that begins behind what was evicted. -/
structure Simulates (s : RingLog) (fifo : FifoLog Bytes) : Prop where
  window : s.ring.Window fifo.accepted fifo.evicted
  initialized : s.ring.initialized = true
  fits : s.ring.buffer.length ≤ s.ring.maxBufferSize
  capacity : s.ring.maxBufferSize = fifo.capacity
  offsets : s.offsets = (List.range fifo.accepted.length).map (framePos fifo.accepted)

variable {s : RingLog} {fifo : FifoLog Bytes}

theorem simulates_new (maxBufferSize : ℕ) :
    Simulates (RingLog.new maxBufferSize) (FifoLog.new maxBufferSize) :=
  ⟨(window_new maxBufferSize).initializeStorage, rfl, Nat.zero_le _, rfl, rfl⟩

/-- **One call** is one step of the log. -/
theorem Simulates.add (h : Simulates s fifo) {eventData : Bytes} (hdata : Storable eventData) :
    Simulates (s.add eventData) (fifo.add frameSize eventData) := by
  rw [RingLog.add, FifoLog.add]
  by_cases hlarge : fifo.capacity < frameSize eventData
  · have hreject : 4 + eventData.length > s.ring.maxBufferSize := by
      rw [h.capacity]
      exact hlarge
    rw [if_pos hlarge, RingBuffer.addEvent, if_pos hreject]
    exact h
  · have hfit : 4 + eventData.length ≤ s.ring.maxBufferSize := by
      rw [h.capacity]
      exact Nat.le_of_not_lt hlarge
    have hevict : (s.ring.evictToFit (4 + eventData.length)).Window fifo.accepted
        (fifo.evicted + FifoLog.toEvict frameSize (fifo.capacity - frameSize eventData) fifo.live) := by
      rw [← h.capacity]
      exact window_evictToFit h.window hfit
    obtain ⟨-, ring, hadd, -, -, hmax, hinit, hfits⟩ := h.window.addEvent hdata hfit
    rw [if_neg hlarge, hadd]
    have hring : ring = { s.ring.evictToFit (4 + eventData.length) with
        buffer := (s.ring.evictToFit (4 + eventData.length)).buffer ++ frame eventData } := by
      rw [RingBuffer.addEvent, if_neg (by omega)] at hadd
      exact (Prod.mk.inj (Except.ok.inj hadd)).1.symm
    generalize fifo.evicted + FifoLog.toEvict frameSize (fifo.capacity - frameSize eventData)
      fifo.live = k at hevict ⊢
    refine ⟨⟨?_, ?_, ?_, ?_⟩, hinit.trans h.initialized, hfits, hmax.trans h.capacity, ?_⟩
    · have := hevict.le
      rw [length_append]
      exact le_trans this (Nat.le_add_right _ _)
    · rw [hring]
      show (s.ring.evictToFit (4 + eventData.length)).buffer ++ frame eventData =
        frameLog ((fifo.accepted ++ [eventData]).drop k)
      rw [drop_append_of_le_length hevict.le, frameLog_append, frameLog_singleton,
        hevict.buffer]
    · rw [hring]
      show (s.ring.evictToFit (4 + eventData.length)).headOffset =
        framePos (fifo.accepted ++ [eventData]) k
      rw [framePos_append hevict.le]
      exact hevict.head
    · intro payload hpayload
      rcases List.mem_append.mp hpayload with hold | hnew
      · exact h.window.storable payload hold
      · rwa [List.mem_singleton.mp hnew]
    · show s.offsets ++ [framePos fifo.accepted fifo.accepted.length] =
        (List.range (fifo.accepted ++ [eventData]).length).map (framePos (fifo.accepted ++ [eventData]))
      rw [h.offsets, length_append, length_singleton, range_succ, map_append,
        map_singleton, framePos_append (le_refl _)]
      refine congrArg (· ++ [framePos fifo.accepted fifo.accepted.length]) ?_
      refine map_congr_left fun i hi => ?_
      rw [framePos_append (List.mem_range.mp hi).le]

theorem simulates_exec {payloads : List Bytes} (hst : ∀ payload ∈ payloads, Storable payload)
    (h : Simulates s fifo) :
    Simulates (Run.exec RingLog.add s payloads) (Run.exec (FifoLog.add frameSize) fifo payloads) := by
  induction payloads generalizing s fifo with
  | nil => exact h
  | cons payload payloads ih =>
    exact ih (fun p hp => hst p (mem_cons_of_mem payload hp))
      (h.add (hst payload mem_cons_self))

theorem Simulates.agrees (h : Simulates s fifo) : AgreesWithFifo s fifo := by
  have hlen : s.offsets.length = fifo.accepted.length := by
    rw [h.offsets, length_map, length_range]
  have hoffset : ∀ (i : ℕ) offset, s.offsets[i]? = some offset →
      offset = framePos fifo.accepted i ∧ i < fifo.accepted.length := by
    intro i offset hget
    have hi : i < fifo.accepted.length := by
      rw [← hlen]
      exact (List.getElem?_eq_some_iff.mp hget).1
    rw [h.offsets, List.getElem?_map, List.getElem?_range hi] at hget
    exact ⟨(Option.some.inj hget).symm, hi⟩
  have hread : ∀ (i : ℕ) payload offset, fifo.accepted[i]? = some payload →
      s.offsets[i]? = some offset →
      s.ring.getEventAtOffset offset = .ok (if i < fifo.evicted then none else some payload) := by
    intro i payload offset hpayload hget
    rw [(hoffset i offset hget).1]
    exact h.window.getEventAtOffset h.initialized hpayload
  refine ⟨hlen, hread, fun i offset hget => ?_, ?_, h.fits, h.capacity⟩
  · obtain ⟨-, hi⟩ := hoffset i offset hget
    have hpayload : fifo.accepted[i]? = some fifo.accepted[i] := List.getElem?_eq_getElem hi
    rw [containsOffset_iff, hread i _ offset hpayload hget]
    by_cases hevicted : i < fifo.evicted
    · simp [hevicted]
    · simp [hevicted, Nat.le_of_not_lt hevicted]
  · have hdrop : (List.range fifo.accepted.length).drop fifo.evicted =
        (List.range (fifo.accepted.length - fifo.evicted)).map (fifo.evicted + ·) := by
      rw [range_eq_range', drop_range', List.range'_eq_map_range, Nat.zero_add, Nat.mul_one]
    rw [h.window.loadEvents, h.offsets, ← map_drop, hdrop, map_map]
    rfl

theorem offsets_prefix_exec (s : RingLog) (payloads : List Bytes) :
    s.offsets <+: (Run.exec RingLog.add s payloads).offsets := by
  induction payloads generalizing s with
  | nil => exact prefix_refl _
  | cons payload payloads ih =>
    have hadd : s.offsets <+: (s.add payload).offsets := by
      rw [RingLog.add]
      split
      · exact prefix_append _ _
      · exact prefix_refl _
    exact hadd.trans (ih (s.add payload))

/-- **The ring store is a bounded first-in first-out log**: after every sequence of calls,
and after every further one, in which what was evicted stays evicted. -/
theorem ring_refines_fifo (capacity : ℕ) (payloads more : List Bytes)
    (hst : ∀ payload ∈ payloads ++ more, Storable payload) :
    AgreesWithFifo (Run.exec RingLog.add (RingLog.new capacity) payloads)
        (Run.exec (FifoLog.add frameSize) (FifoLog.new capacity) payloads) ∧
      AgreesWithFifo (Run.exec RingLog.add (RingLog.new capacity) (payloads ++ more))
        (Run.exec (FifoLog.add frameSize) (FifoLog.new capacity) (payloads ++ more)) ∧
      (Run.exec RingLog.add (RingLog.new capacity) payloads).offsets <+:
        (Run.exec RingLog.add (RingLog.new capacity) (payloads ++ more)).offsets ∧
      (Run.exec (FifoLog.add frameSize) (FifoLog.new capacity) payloads).accepted <+:
        (Run.exec (FifoLog.add frameSize) (FifoLog.new capacity) (payloads ++ more)).accepted ∧
      (Run.exec (FifoLog.add frameSize) (FifoLog.new capacity) payloads).evicted ≤
        (Run.exec (FifoLog.add frameSize) (FifoLog.new capacity) (payloads ++ more)).evicted := by
  have hfirst := simulates_exec (fun p hp => hst p (mem_append_left more hp))
    (simulates_new capacity)
  have hlater := simulates_exec hst (simulates_new capacity)
  obtain ⟨haccepted, hevicted⟩ := FifoLog.prefix_exec frameSize
    (Run.exec (FifoLog.add frameSize) (FifoLog.new capacity) payloads) more
  rw [← Run.exec_append] at haccepted hevicted
  refine ⟨hfirst.agrees, hlater.agrees, ?_, haccepted, hevicted⟩
  rw [Run.exec_append]
  exact offsets_prefix_exec _ more

/-- Two events fit into sixteen bytes; the third evicts the first, and a fourth is too
large. -/
theorem ring_refines_fifo_sixteen :
    (Run.exec (FifoLog.add frameSize) (FifoLog.new 16)
        ([[1, 2, 3], [4, 5, 6]] ++ [[7, 8, 9], List.replicate 13 0])).live =
      [[4, 5, 6], [7, 8, 9]] ∧
    AgreesWithFifo (Run.exec RingLog.add (RingLog.new 16)
        ([[1, 2, 3], [4, 5, 6]] ++ [[7, 8, 9], List.replicate 13 0]))
      (Run.exec (FifoLog.add frameSize) (FifoLog.new 16)
        ([[1, 2, 3], [4, 5, 6]] ++ [[7, 8, 9], List.replicate 13 0])) := by
  refine ⟨by decide +kernel, (ring_refines_fifo 16 [[1, 2, 3], [4, 5, 6]]
    [[7, 8, 9], List.replicate 13 0] ?_).2.1⟩
  simp [Storable]

end Nipworker
