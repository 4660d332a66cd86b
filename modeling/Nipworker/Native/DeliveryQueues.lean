/-
The queues of the native delivery (`react-native/cpp/NipworkerReactNativeTransport.cpp`).

Routes and control packets wait to be drained.  The routes are kept in a list, in a set and in a
sum of their bytes, the packets in a list and in a sum, and statistics count what was refused or
discarded.  All sizes are unsigned numbers of one width, and the differences of sizes that are
computed are recorded.  The waking of the runtime is left out.
-/
import Nipworker.Lib.History
import Nipworker.Lib.Run

namespace Nipworker

namespace Delivery

/-! ### Routes, packets and limits -/

/-- A route: a string of bytes, whose size is a `size_t` of `w` bits. -/
structure Route (w : ℕ) where
  bytes : List UInt8
  fits : bytes.length < 2 ^ w
  deriving DecidableEq

variable {w : ℕ}

/-- `route.size()`. -/
def Route.size (route : Route w) : BitVec w := BitVec.ofNat w route.bytes.length

@[simp] theorem Route.toNat_size (route : Route w) : route.size.toNat = route.bytes.length := by
  rw [Route.size, BitVec.toNat_ofNat, Nat.mod_eq_of_lt route.fits]

/-- A packet and its size. -/
structure OwnedPacket (w : ℕ) where
  data : Option ℕ
  size : BitVec w
  deriving DecidableEq

/-- `operator bool`. -/
def OwnedPacket.nonEmpty (packet : OwnedPacket w) : Bool := packet.data ≠ none ∧ packet.size ≠ 0

/-- `DeliveryLimits`. -/
structure Limits (w : ℕ) where
  maxControlPackets : BitVec w := 4096
  maxControlBytes : BitVec w := 8 * 1024 * 1024
  maxDirtyRoutes : BitVec w := 16384
  maxDirtyRouteBytes : BitVec w := 2 * 1024 * 1024
  maxRouteBytes : BitVec w := 1024

/-- `DeliveryStats`, but for the wakes. -/
structure Stats (w : ℕ) where
  receivedRoutes : BitVec 64 := 0
  receivedControls : BitVec 64 := 0
  coalescedRoutes : BitVec 64 := 0
  droppedControlPackets : BitVec 64 := 0
  droppedControlBytes : BitVec 64 := 0
  droppedRoutes : BitVec 64 := 0
  staleDrops : BitVec 64 := 0
  invalidatedDrops : BitVec 64 := 0
  queuedControlPackets : BitVec w := 0
  queuedControlBytes : BitVec w := 0
  dirtyRoutes : BitVec w := 0
  dirtyRouteBytes : BitVec w := 0
  dirtyRouteBytesHighWater : BitVec w := 0
  controlBytesHighWater : BitVec w := 0

/-- `std::max`. -/
def maxSize (a b : BitVec w) : BitVec w := if a < b then b else a

/-- A difference of sizes that was computed: what was taken, and from what. -/
structure Difference (w : ℕ) where
  whole : BitVec w
  part : BitVec w

/-- There is no room for a route next to `count` routes of `total` bytes; with the difference that
is computed when nothing before it refuses the route. -/
def overBudget (limits : Limits w) (count : ℕ) (total routeBytes : BitVec w) :
    Bool × List (Difference w) :=
  if limits.maxRouteBytes < routeBytes then (true, [])
  else if limits.maxDirtyRouteBytes < routeBytes then (true, [])
  else if limits.maxDirtyRoutes.toNat ≤ count then (true, [])
  else
    (decide (limits.maxDirtyRouteBytes - routeBytes < total),
      [⟨limits.maxDirtyRouteBytes, routeBytes⟩])

theorem overBudget_eq_false {limits : Limits w} {count : ℕ} {total routeBytes : BitVec w} :
    (overBudget limits count total routeBytes).1 = false ↔
      routeBytes ≤ limits.maxRouteBytes ∧ count < limits.maxDirtyRoutes.toNat ∧
        total.toNat + routeBytes.toNat ≤ limits.maxDirtyRouteBytes.toNat := by
  rw [overBudget]
  simp only [BitVec.lt_def, BitVec.le_def]
  by_cases hroute : limits.maxRouteBytes.toNat < routeBytes.toNat
  · rw [if_pos hroute]
    refine iff_of_false (by simp) ?_
    rintro ⟨hle, -, -⟩
    omega
  by_cases hbytes : limits.maxDirtyRouteBytes.toNat < routeBytes.toNat
  · rw [if_neg hroute, if_pos hbytes]
    refine iff_of_false (by simp) ?_
    rintro ⟨-, -, hle⟩
    omega
  by_cases hcount : limits.maxDirtyRoutes.toNat ≤ count
  · rw [if_neg hroute, if_neg hbytes, if_pos hcount]
    refine iff_of_false (by simp) ?_
    rintro ⟨-, hlt, -⟩
    omega
  rw [if_neg hroute, if_neg hbytes, if_neg hcount, decide_eq_false_iff_not,
    BitVec.toNat_sub_of_le (by rw [BitVec.le_def]; omega)]
  constructor
  · intro h
    exact ⟨by omega, by omega, by omega⟩
  · rintro ⟨-, -, h⟩
    omega

theorem overBudget_differences {limits : Limits w} {count : ℕ} {total routeBytes : BitVec w} :
    ∀ d ∈ (overBudget limits count total routeBytes).2, d.part ≤ d.whole := by
  rw [overBudget]
  split
  · simp
  · split
    · simp
    · rename_i hbytes
      split
      · simp
      · intro d hd
        rw [List.mem_singleton.mp hd]
        exact BitVec.not_lt.mp hbytes

/-! ### The state and its calls -/

/-- What a drain hands over. -/
structure Batch (w : ℕ) where
  routes : List (Route w) := []
  controls : List (OwnedPacket w) := []

/-- A call, with what it answered: the batch of a drain, or what an invalidation discards. -/
inductive Entry (w : ℕ)
  | route (sourceGeneration : ℕ) (route : Route w) (accepted : Bool)
  | control (sourceGeneration : ℕ) (packet : OwnedPacket w) (accepted : Bool)
  | drain (generation : ℕ) (batch : Batch w)
  | invalidate (generation : ℕ) (discarded : Batch w)

/-- `DeliveryState`, with the differences computed so far and what happened. -/
structure Queues (w : ℕ) where
  generation : ℕ
  limits : Limits w
  alive : Bool
  dirtyRouteOrder : List (Route w)
  dirtyRouteSet : Finset (Route w)
  dirtyRouteBytes : BitVec w
  controlPackets : List (OwnedPacket w)
  stats : Stats w
  differences : List (Difference w)
  log : List (Entry w)

namespace Queues

def start (generation : ℕ) (limits : Limits w) : Queues w :=
  { generation := generation, limits := limits, alive := true, dirtyRouteOrder := []
    dirtyRouteSet := ∅, dirtyRouteBytes := 0, controlPackets := [], stats := {}
    differences := [], log := [] }

def dropControl (stats : Stats w) (packet : OwnedPacket w) : Stats w :=
  { stats with
    droppedControlPackets := stats.droppedControlPackets + 1
    droppedControlBytes := stats.droppedControlBytes + packet.size.setWidth 64 }

def dropIfControl (stats : Stats w) : Option (OwnedPacket w) → Stats w
  | none => stats
  | some packet => dropControl stats packet

def accepts (st : Queues w) (sourceGeneration : ℕ) (packet : Option (OwnedPacket w)) :
    Bool × Queues w :=
  if ¬ st.alive then
    (false, { st with
      stats := dropIfControl
        { st.stats with invalidatedDrops := st.stats.invalidatedDrops + 1 } packet })
  else if sourceGeneration ≠ st.generation then
    (false, { st with
      stats := dropIfControl { st.stats with staleDrops := st.stats.staleDrops + 1 } packet })
  else (true, st)

/-- What `enqueueRoute` does with the lock. -/
def queueRoute (st : Queues w) (route : Route w) : Bool × Queues w :=
  if ¬ st.alive then
    (false, { st with
      stats := { st.stats with invalidatedDrops := st.stats.invalidatedDrops + 1 } })
  else
    let st := { st with
      stats := { st.stats with receivedRoutes := st.stats.receivedRoutes + 1 } }
    if route ∈ st.dirtyRouteSet then
      (true, { st with
        stats := { st.stats with coalescedRoutes := st.stats.coalescedRoutes + 1 } })
    else
      let full := overBudget st.limits st.dirtyRouteOrder.length st.dirtyRouteBytes route.size
      let st := { st with differences := st.differences ++ full.2 }
      if full.1 then
        (false, { st with
          stats := { st.stats with droppedRoutes := st.stats.droppedRoutes + 1 } })
      else
        let order := st.dirtyRouteOrder ++ [route]
        let bytes := st.dirtyRouteBytes + route.size
        (true, { st with
          dirtyRouteSet := insert route st.dirtyRouteSet
          dirtyRouteOrder := order
          dirtyRouteBytes := bytes
          stats := { st.stats with
            dirtyRoutes := BitVec.ofNat w order.length
            dirtyRouteBytes := bytes
            dirtyRouteBytesHighWater := maxSize st.stats.dirtyRouteBytesHighWater bytes } })

/-- A route joins the dirty ones, once. -/
def enqueueRoute (st : Queues w) (sourceGeneration : ℕ) (route : Route w) : Bool × Queues w :=
  match accepts st sourceGeneration none with
  | (false, st) => (false, st)
  | (true, st) => if route.bytes = [] then (false, st) else queueRoute st route

/-- What `enqueueControl` does with the lock. -/
def queueControl (st : Queues w) (packet : OwnedPacket w) : Bool × Queues w :=
  if ¬ st.alive then
    (false, { st with
      stats := dropControl
        { st.stats with invalidatedDrops := st.stats.invalidatedDrops + 1 } packet })
  else
    let st := { st with
      stats := { st.stats with receivedControls := st.stats.receivedControls + 1 } }
    if st.limits.maxControlBytes < packet.size ∨ st.limits.maxControlPackets = 0 then
      (false, { st with stats := dropControl st.stats packet })
    else if st.limits.maxControlPackets.toNat ≤ st.controlPackets.length then
      (false, { st with stats := dropControl st.stats packet })
    else
      let st := { st with
        differences := st.differences ++ [Difference.mk st.limits.maxControlBytes packet.size] }
      if st.limits.maxControlBytes - packet.size < st.stats.queuedControlBytes then
        (false, { st with stats := dropControl st.stats packet })
      else
        let packets := st.controlPackets ++ [packet]
        let bytes := st.stats.queuedControlBytes + packet.size
        (true, { st with
          controlPackets := packets
          stats := { st.stats with
            queuedControlPackets := BitVec.ofNat w packets.length
            queuedControlBytes := bytes
            controlBytesHighWater := maxSize st.stats.controlBytesHighWater bytes } })

/-- A packet joins the queue. -/
def enqueueControl (st : Queues w) (sourceGeneration : ℕ) (packet : OwnedPacket w) :
    Bool × Queues w :=
  if ¬ packet.nonEmpty then (false, st)
  else
    match accepts st sourceGeneration (some packet) with
    | (false, st) => (false, st)
    | (true, st) => queueControl st packet

def emptied (st : Queues w) : Queues w :=
  { st with
    dirtyRouteOrder := []
    dirtyRouteSet := ∅
    dirtyRouteBytes := 0
    controlPackets := []
    stats := { st.stats with
      queuedControlPackets := 0, queuedControlBytes := 0, dirtyRoutes := 0, dirtyRouteBytes := 0 } }

/-- All that is queued leaves. -/
def drain (st : Queues w) (generation : ℕ) : Batch w × Queues w :=
  if ¬ st.alive ∨ generation ≠ st.generation then ({}, st)
  else ({ routes := st.dirtyRouteOrder, controls := st.controlPackets }, st.emptied)

/-- `invalidate`, with what it discards. -/
def invalidate (st : Queues w) (generation : ℕ) : Batch w × Queues w :=
  if generation ≠ st.generation then ({}, st)
  else if ¬ st.alive then ({}, st)
  else
    let dropped := BitVec.ofNat 64 (st.dirtyRouteOrder.length + st.controlPackets.length)
    let stats := { st.stats with invalidatedDrops := st.stats.invalidatedDrops + dropped }
    let st := { st with alive := false, stats := st.controlPackets.foldl dropControl stats }
    ({ routes := st.dirtyRouteOrder, controls := st.controlPackets }, st.emptied)

/-- The calls of the queues. -/
inductive Call (w : ℕ)
  | enqueueRoute (sourceGeneration : ℕ) (route : Route w)
  | enqueueControl (sourceGeneration : ℕ) (packet : OwnedPacket w)
  | drain (generation : ℕ)
  | invalidate (generation : ℕ)

def record (st : Queues w) (entry : Entry w) : Queues w := { st with log := st.log ++ [entry] }

/-- A call, with what it did. -/
def step (st : Queues w) : Call w → Queues w
  | .enqueueRoute sourceGeneration route =>
    (enqueueRoute st sourceGeneration route).2.record
      (.route sourceGeneration route (enqueueRoute st sourceGeneration route).1)
  | .enqueueControl sourceGeneration packet =>
    (enqueueControl st sourceGeneration packet).2.record
      (.control sourceGeneration packet (enqueueControl st sourceGeneration packet).1)
  | .drain generation => (drain st generation).2.record (.drain generation (drain st generation).1)
  | .invalidate generation =>
    (invalidate st generation).2.record (.invalidate generation (invalidate st generation).1)

end Queues

end Delivery

end Nipworker
