/-
The ways a call of the native delivery can go.
-/
import Nipworker.Native.DeliveryQueues

namespace Nipworker

namespace Delivery

variable {w : ℕ}

/-! ### The ways a call can go -/

/-- The queues are as before, and only packets of the list are counted as dropped. -/
structure Untouched (st st' : Queues w) (dropped : List (OwnedPacket w)) : Prop where
  generation : st'.generation = st.generation
  limits : st'.limits = st.limits
  alive : st'.alive = st.alive
  dirtyRouteOrder : st'.dirtyRouteOrder = st.dirtyRouteOrder
  dirtyRouteSet : st'.dirtyRouteSet = st.dirtyRouteSet
  dirtyRouteBytes : st'.dirtyRouteBytes = st.dirtyRouteBytes
  controlPackets : st'.controlPackets = st.controlPackets
  queuedControlBytes : st'.stats.queuedControlBytes = st.stats.queuedControlBytes
  droppedControlPackets : st'.stats.droppedControlPackets =
    st.stats.droppedControlPackets + BitVec.ofNat 64 dropped.length
  droppedControlBytes : st'.stats.droppedControlBytes =
    st.stats.droppedControlBytes + BitVec.ofNat 64 (dropped.map fun p => p.size.toNat).sum
  differences : ∀ d ∈ st'.differences, d ∈ st.differences ∨ d.part ≤ d.whole
  log : st'.log = st.log

namespace Queues

theorem setWidth_size (packet : OwnedPacket w) :
    packet.size.setWidth 64 = BitVec.ofNat 64 packet.size.toNat := by
  apply BitVec.eq_of_toNat_eq
  rw [BitVec.toNat_setWidth, BitVec.toNat_ofNat]

variable {ds : List (Difference w)} (st : Queues w) (sourceGeneration : ℕ)

theorem untouched_of_stats {stats : Stats w} {dropped : List (OwnedPacket w)}
    (hqueued : stats.queuedControlBytes = st.stats.queuedControlBytes)
    (hpackets : stats.droppedControlPackets =
      st.stats.droppedControlPackets + BitVec.ofNat 64 dropped.length)
    (hbytes : stats.droppedControlBytes =
      st.stats.droppedControlBytes + BitVec.ofNat 64 (dropped.map fun p => p.size.toNat).sum)
    (hds : ∀ d ∈ ds, d.part ≤ d.whole) :
    Untouched st { st with stats := stats, differences := st.differences ++ ds } dropped where
  generation := rfl
  limits := rfl
  alive := rfl
  dirtyRouteOrder := rfl
  dirtyRouteSet := rfl
  dirtyRouteBytes := rfl
  controlPackets := rfl
  queuedControlBytes := hqueued
  droppedControlPackets := hpackets
  droppedControlBytes := hbytes
  differences := fun d hd => (List.mem_append.mp hd).imp_right (hds d)
  log := rfl

theorem untouched_nil {stats : Stats w}
    (hqueued : stats.queuedControlBytes = st.stats.queuedControlBytes)
    (hpackets : stats.droppedControlPackets = st.stats.droppedControlPackets)
    (hbytes : stats.droppedControlBytes = st.stats.droppedControlBytes)
    (hds : ∀ d ∈ ds, d.part ≤ d.whole) :
    Untouched st { st with stats := stats, differences := st.differences ++ ds } [] :=
  untouched_of_stats st hqueued (by rw [hpackets]; simp) (by rw [hbytes]; simp) hds

theorem untouched_dropControl {stats : Stats w} (packet : OwnedPacket w)
    (hqueued : stats.queuedControlBytes = st.stats.queuedControlBytes)
    (hpackets : stats.droppedControlPackets = st.stats.droppedControlPackets)
    (hbytes : stats.droppedControlBytes = st.stats.droppedControlBytes)
    (hds : ∀ d ∈ ds, d.part ≤ d.whole) :
    Untouched st
      { st with stats := dropControl stats packet, differences := st.differences ++ ds }
      [packet] := by
  refine untouched_of_stats st hqueued ?_ ?_ hds
  · show stats.droppedControlPackets + 1 = _
    rw [hpackets]
    rfl
  · show stats.droppedControlBytes + packet.size.setWidth 64 = _
    rw [hbytes, setWidth_size]
    simp

theorem append_nil_differences (stats : Stats w) : { st with stats := stats } =
      { st with stats := stats, differences := st.differences ++ [] } := by
  rw [List.append_nil]

theorem accepts_cases (packet : Option (OwnedPacket w)) :
    (accepts st sourceGeneration packet = (true, st) ∧ st.alive = true ∧
        sourceGeneration = st.generation) ∨
      ∃ st', accepts st sourceGeneration packet = (false, st') ∧
        Untouched st st' packet.toList ∧ st'.stats.droppedRoutes = st.stats.droppedRoutes ∧
        (st.alive = true → sourceGeneration ≠ st.generation) := by
  rw [accepts]
  by_cases halive : ¬ st.alive
  · rw [if_pos halive]
    refine .inr ⟨_, rfl, ?_, ?_, fun h => absurd h halive⟩
    · rw [append_nil_differences]
      cases packet with
      | none => exact untouched_nil st rfl rfl rfl (by simp)
      | some packet => exact untouched_dropControl st packet rfl rfl rfl (by simp)
    · cases packet with
      | none => rfl
      | some packet => rfl
  · rw [if_neg halive]
    by_cases hgen : sourceGeneration ≠ st.generation
    · rw [if_pos hgen]
      refine .inr ⟨_, rfl, ?_, ?_, fun _ => hgen⟩
      · rw [append_nil_differences]
        cases packet with
        | none => exact untouched_nil st rfl rfl rfl (by simp)
        | some packet => exact untouched_dropControl st packet rfl rfl rfl (by simp)
      · cases packet with
        | none => rfl
        | some packet => rfl
    · rw [if_neg hgen]
      exact .inl ⟨rfl, not_not.mp halive, not_not.mp hgen⟩

/-- The route is the last one now, and nothing else has changed. -/
structure RouteQueued (st st' : Queues w) (route : Route w) : Prop where
  generation : st'.generation = st.generation
  limits : st'.limits = st.limits
  alive : st'.alive = st.alive
  dirtyRouteOrder : st'.dirtyRouteOrder = st.dirtyRouteOrder ++ [route]
  dirtyRouteSet : st'.dirtyRouteSet = insert route st.dirtyRouteSet
  dirtyRouteBytes : st'.dirtyRouteBytes = st.dirtyRouteBytes + route.size
  controlPackets : st'.controlPackets = st.controlPackets
  queuedControlBytes : st'.stats.queuedControlBytes = st.stats.queuedControlBytes
  droppedControlPackets : st'.stats.droppedControlPackets = st.stats.droppedControlPackets
  droppedControlBytes : st'.stats.droppedControlBytes = st.stats.droppedControlBytes
  differences : ∀ d ∈ st'.differences, d ∈ st.differences ∨ d.part ≤ d.whole
  log : st'.log = st.log

/-- A route is turned away, is dirty already, finds no room, or is queued. -/
theorem enqueueRoute_cases (route : Route w) :
    (∃ st', enqueueRoute st sourceGeneration route = (false, st') ∧ Untouched st st' [] ∧
        st'.stats.droppedRoutes = st.stats.droppedRoutes ∧
        ¬ (st.alive = true ∧ sourceGeneration = st.generation ∧ route.bytes ≠ [])) ∨
    (∃ st', enqueueRoute st sourceGeneration route = (true, st') ∧ Untouched st st' [] ∧
        st'.stats.droppedRoutes = st.stats.droppedRoutes ∧
        st.alive = true ∧ route ∈ st.dirtyRouteSet) ∨
    (∃ st', enqueueRoute st sourceGeneration route = (false, st') ∧ Untouched st st' [] ∧
        st'.stats.droppedRoutes = st.stats.droppedRoutes + 1 ∧ route ∉ st.dirtyRouteSet ∧
        (overBudget st.limits st.dirtyRouteOrder.length st.dirtyRouteBytes route.size).1 = true) ∨
    (∃ st', enqueueRoute st sourceGeneration route = (true, st') ∧ RouteQueued st st' route ∧
        st'.stats.droppedRoutes = st.stats.droppedRoutes ∧
        st.alive = true ∧ route ∉ st.dirtyRouteSet ∧
        (overBudget st.limits st.dirtyRouteOrder.length st.dirtyRouteBytes route.size).1
          = false) := by
  rw [enqueueRoute]
  rcases accepts_cases st sourceGeneration none with ⟨hacc, halive, hgen⟩ | ⟨st', hacc, hsame, hdrop, hno⟩
  · rw [hacc]
    simp only []
    by_cases hempty : route.bytes = []
    · rw [if_pos hempty]
      refine .inl ⟨st, rfl, ?_, rfl, fun h => h.2.2 hempty⟩
      exact ⟨rfl, rfl, rfl, rfl, rfl, rfl, rfl, rfl, by simp, by simp, fun d hd => .inl hd, rfl⟩
    rw [if_neg hempty, queueRoute, if_neg (by rw [halive]; simp)]
    simp only []
    by_cases hdirty : route ∈ st.dirtyRouteSet
    · rw [if_pos hdirty]
      refine .inr (.inl ⟨_, rfl, ?_, rfl, halive, hdirty⟩)
      rw [append_nil_differences]
      exact untouched_nil st rfl rfl rfl (by simp)
    rw [if_neg hdirty]
    by_cases hfull : (overBudget st.limits st.dirtyRouteOrder.length st.dirtyRouteBytes
        route.size).1 = true
    · rw [if_pos hfull]
      refine .inr (.inr (.inl ⟨_, rfl, ?_, rfl, hdirty, hfull⟩))
      exact untouched_nil st rfl rfl rfl overBudget_differences
    · rw [if_neg hfull]
      refine .inr (.inr (.inr ⟨_, rfl, ?_, rfl, halive, hdirty, Bool.eq_false_of_not_eq_true hfull⟩))
      exact ⟨rfl, rfl, rfl, rfl, rfl, rfl, rfl, rfl, rfl, rfl,
        fun d hd => (List.mem_append.mp hd).imp_right (overBudget_differences d), rfl⟩
  · rw [hacc]
    exact .inl ⟨st', rfl, hsame, hdrop, fun h => hno h.1 h.2.1⟩

/-- The packet is the last one now, and nothing else has changed. -/
structure ControlQueued (st st' : Queues w) (packet : OwnedPacket w) : Prop where
  generation : st'.generation = st.generation
  limits : st'.limits = st.limits
  alive : st'.alive = st.alive
  dirtyRouteOrder : st'.dirtyRouteOrder = st.dirtyRouteOrder
  dirtyRouteSet : st'.dirtyRouteSet = st.dirtyRouteSet
  dirtyRouteBytes : st'.dirtyRouteBytes = st.dirtyRouteBytes
  controlPackets : st'.controlPackets = st.controlPackets ++ [packet]
  queuedControlBytes : st'.stats.queuedControlBytes = st.stats.queuedControlBytes + packet.size
  droppedControlPackets : st'.stats.droppedControlPackets = st.stats.droppedControlPackets
  droppedControlBytes : st'.stats.droppedControlBytes = st.stats.droppedControlBytes
  differences : ∀ d ∈ st'.differences, d ∈ st.differences ∨ d.part ≤ d.whole
  log : st'.log = st.log

/-- A packet is refused, or queued within the limits. -/
theorem enqueueControl_cases (packet : OwnedPacket w) :
    (∃ st', enqueueControl st sourceGeneration packet = (false, st') ∧
        Untouched st st' (if packet.nonEmpty then [packet] else [])) ∨
    (∃ st', enqueueControl st sourceGeneration packet = (true, st') ∧
        ControlQueued st st' packet ∧ st.alive = true ∧
        st.controlPackets.length < st.limits.maxControlPackets.toNat ∧
        st.stats.queuedControlBytes.toNat + packet.size.toNat ≤
          st.limits.maxControlBytes.toNat) := by
  rw [enqueueControl]
  by_cases hempty : ¬ packet.nonEmpty
  · rw [if_pos hempty, if_neg hempty]
    refine .inl ⟨st, rfl, ?_⟩
    exact ⟨rfl, rfl, rfl, rfl, rfl, rfl, rfl, rfl, by simp, by simp, fun d hd => .inl hd, rfl⟩
  rw [if_neg hempty, if_pos (not_not.mp hempty)]
  rcases accepts_cases st sourceGeneration (some packet) with
    ⟨hacc, halive, -⟩ | ⟨st', hacc, hsame, -, -⟩
  · rw [hacc]
    simp only []
    rw [queueControl, if_neg (by rw [halive]; simp)]
    simp only []
    by_cases hlarge : st.limits.maxControlBytes < packet.size ∨ st.limits.maxControlPackets = 0
    · rw [if_pos hlarge]
      refine .inl ⟨_, rfl, ?_⟩
      rw [append_nil_differences]
      exact untouched_dropControl st packet rfl rfl rfl (by simp)
    rw [if_neg hlarge]
    obtain ⟨hsize, -⟩ := not_or.mp hlarge
    have hle : packet.size ≤ st.limits.maxControlBytes := BitVec.not_lt.mp hsize
    by_cases hmany : st.limits.maxControlPackets.toNat ≤ st.controlPackets.length
    · rw [if_pos hmany]
      refine .inl ⟨_, rfl, ?_⟩
      rw [append_nil_differences]
      exact untouched_dropControl st packet rfl rfl rfl (by simp)
    rw [if_neg hmany]
    -- from here on the difference has been computed
    have hds : ∀ d ∈ [Difference.mk st.limits.maxControlBytes packet.size], d.part ≤ d.whole := by
      intro d hd
      rw [List.mem_singleton.mp hd]
      exact hle
    by_cases hfull : st.limits.maxControlBytes - packet.size < st.stats.queuedControlBytes
    · rw [if_pos hfull]
      exact .inl ⟨_, rfl, untouched_dropControl st packet rfl rfl rfl hds⟩
    · rw [if_neg hfull]
      refine .inr ⟨_, rfl, ?_, halive, by omega, ?_⟩
      · exact ⟨rfl, rfl, rfl, rfl, rfl, rfl, rfl, rfl, rfl, rfl,
          fun d hd => (List.mem_append.mp hd).imp_right (hds d), rfl⟩
      · rw [BitVec.lt_def, BitVec.toNat_sub_of_le hle] at hfull
        rw [BitVec.le_def] at hle
        omega
  · rw [hacc]
    exact .inl ⟨st', rfl, hsame⟩

end Queues

end Delivery

end Nipworker
