/-
What the queues of the native delivery keep.
-/
import Nipworker.Native.DeliveryCalls

namespace Nipworker

open List

namespace Delivery

variable {w : ℕ}

/-! ### What is kept -/

def acceptedControls (log : List (Entry w)) : List (OwnedPacket w) :=
  log.flatMap fun entry =>
    match entry with
    | .control _ packet true => [packet]
    | _ => []

/-- The control packets that drains gave and invalidations discarded, in order. -/
def leftControls (log : List (Entry w)) : List (OwnedPacket w) :=
  log.flatMap fun entry =>
    match entry with
    | .drain _ batch => batch.controls
    | .invalidate _ discarded => discarded.controls
    | _ => []

/-- The packets, but the empty ones, that were refused or discarded. -/
def droppedControls (log : List (Entry w)) : List (OwnedPacket w) :=
  log.flatMap fun entry =>
    match entry with
    | .control _ packet false => if packet.nonEmpty then [packet] else []
    | .invalidate _ discarded => discarded.controls
    | _ => []

/-- The call neither drains nor invalidates the queues of a generation. -/
def Entry.Leaves (generation : ℕ) : Entry w → Prop
  | .drain g _ => g ≠ generation
  | .invalidate g _ => g ≠ generation
  | _ => True

/-- A drain of a generation gives every route that was accepted since the last drain, unless the
queues were invalidated. -/
def GivesRoutes (generation : ℕ) (before : List (Entry w)) : Entry w → Prop
  | .drain g batch => g = generation →
    ∀ sourceGeneration route,
      History.Since (Entry.Leaves generation) (.route sourceGeneration route true) before →
        route ∈ batch.routes
  | _ => True

/-- What the queues keep: the routes in the list, the set and the sum are the same, the limits
hold, no difference of sizes has wrapped, the control packets leave in the order in which they came,
each once, the routes are in the next drain, and what was refused or discarded is counted. -/
structure Conserved (st : Queues w) : Prop where
  nodup : st.dirtyRouteOrder.Nodup
  sameSet : st.dirtyRouteSet = st.dirtyRouteOrder.toFinset
  routeBytes : (st.dirtyRouteOrder.map fun r => r.bytes.length).sum = st.dirtyRouteBytes.toNat
  routeCount : st.dirtyRouteOrder.length ≤ st.limits.maxDirtyRoutes.toNat
  routeLimit : st.dirtyRouteBytes ≤ st.limits.maxDirtyRouteBytes
  routeSizes : ∀ r ∈ st.dirtyRouteOrder, r.size ≤ st.limits.maxRouteBytes
  controlBytes : (st.controlPackets.map fun p => p.size.toNat).sum =
    st.stats.queuedControlBytes.toNat
  controlCount : st.controlPackets.length ≤ st.limits.maxControlPackets.toNat
  controlLimit : st.stats.queuedControlBytes ≤ st.limits.maxControlBytes
  differences : ∀ d ∈ st.differences, d.part ≤ d.whole
  inOrder : acceptedControls st.log = leftControls st.log ++ st.controlPackets
  droppedPackets : st.stats.droppedControlPackets =
    BitVec.ofNat 64 (droppedControls st.log).length
  droppedBytes : st.stats.droppedControlBytes =
    BitVec.ofNat 64 ((droppedControls st.log).map fun p => p.size.toNat).sum
  routesGiven : History.Always (GivesRoutes st.generation) st.log

/-- What it is proved with: queues that were invalidated are empty, and the routes that the next
drain owes are dirty. -/
structure Kept (st : Queues w) : Prop extends Conserved st where
  dead : st.alive = false → st.dirtyRouteOrder = [] ∧ st.controlPackets = []
  owed : ∀ sourceGeneration route,
    History.Since (Entry.Leaves st.generation) (.route sourceGeneration route true) st.log →
      route ∈ st.dirtyRouteOrder

theorem kept_start (generation : ℕ) (limits : Limits w) : Kept (Queues.start generation limits) where
  nodup := nodup_nil
  sameSet := rfl
  routeBytes := by simp [Queues.start]
  routeCount := Nat.zero_le _
  routeLimit := BitVec.le_def.mpr (Nat.zero_le _)
  routeSizes := fun _ hr => absurd hr not_mem_nil
  controlBytes := by simp [Queues.start]
  controlCount := Nat.zero_le _
  controlLimit := BitVec.le_def.mpr (Nat.zero_le _)
  differences := by simp [Queues.start]
  inOrder := rfl
  droppedPackets := rfl
  droppedBytes := rfl
  routesGiven := History.always_nil
  dead := fun _ => ⟨rfl, rfl⟩
  owed := fun _ _ h => absurd h History.not_since_nil

/-! ### The log of one more call -/

variable (log more : List (Entry w))

theorem acceptedControls_append :
    acceptedControls (log ++ more) = acceptedControls log ++ acceptedControls more :=
  flatMap_append

theorem leftControls_append : leftControls (log ++ more) = leftControls log ++ leftControls more :=
  flatMap_append

theorem droppedControls_append :
    droppedControls (log ++ more) = droppedControls log ++ droppedControls more :=
  flatMap_append

theorem ofNat_add (m n : ℕ) : BitVec.ofNat 64 (m + n) = BitVec.ofNat 64 m + BitVec.ofNat 64 n :=
  BitVec.ofNat_add ..

/-- The routes as `Conserved` has them. -/
structure RoutesSound (st : Queues w) : Prop where
  nodup : st.dirtyRouteOrder.Nodup
  sameSet : st.dirtyRouteSet = st.dirtyRouteOrder.toFinset
  routeBytes : (st.dirtyRouteOrder.map fun r => r.bytes.length).sum = st.dirtyRouteBytes.toNat
  routeCount : st.dirtyRouteOrder.length ≤ st.limits.maxDirtyRoutes.toNat
  routeLimit : st.dirtyRouteBytes ≤ st.limits.maxDirtyRouteBytes
  routeSizes : ∀ r ∈ st.dirtyRouteOrder, r.size ≤ st.limits.maxRouteBytes

/-- The control packets as `Conserved` has them. -/
structure ControlsSound (st : Queues w) : Prop where
  controlBytes : (st.controlPackets.map fun p => p.size.toNat).sum =
    st.stats.queuedControlBytes.toNat
  controlCount : st.controlPackets.length ≤ st.limits.maxControlPackets.toNat
  controlLimit : st.stats.queuedControlBytes ≤ st.limits.maxControlBytes

variable {st st' : Queues w}

theorem Conserved.routesSound (h : Conserved st) (hlimits : st'.limits = st.limits)
    (horder : st'.dirtyRouteOrder = st.dirtyRouteOrder)
    (hset : st'.dirtyRouteSet = st.dirtyRouteSet)
    (hbytes : st'.dirtyRouteBytes = st.dirtyRouteBytes) : RoutesSound st' where
  nodup := horder ▸ h.nodup
  sameSet := by rw [hset, horder, h.sameSet]
  routeBytes := by rw [horder, hbytes, h.routeBytes]
  routeCount := by rw [horder, hlimits]; exact h.routeCount
  routeLimit := by rw [hbytes, hlimits]; exact h.routeLimit
  routeSizes := by rw [horder, hlimits]; exact h.routeSizes

theorem Conserved.controlsSound (h : Conserved st) (hlimits : st'.limits = st.limits)
    (hpackets : st'.controlPackets = st.controlPackets)
    (hbytes : st'.stats.queuedControlBytes = st.stats.queuedControlBytes) : ControlsSound st' where
  controlBytes := by rw [hpackets, hbytes, h.controlBytes]
  controlCount := by rw [hpackets, hlimits]; exact h.controlCount
  controlLimit := by rw [hbytes, hlimits]; exact h.controlLimit

theorem kept_record {entry : Entry w} (h : Kept st) (hgeneration : st'.generation = st.generation)
    (hlog : st'.log = st.log) (hroutes : RoutesSound st') (hcontrols : ControlsSound st')
    (hdifferences : ∀ d ∈ st'.differences, d ∈ st.differences ∨ d.part ≤ d.whole)
    (horder : st.controlPackets ++ acceptedControls [entry] =
      leftControls [entry] ++ st'.controlPackets)
    (hpackets : st'.stats.droppedControlPackets =
      st.stats.droppedControlPackets + BitVec.ofNat 64 (droppedControls [entry]).length)
    (hbytes : st'.stats.droppedControlBytes = st.stats.droppedControlBytes +
      BitVec.ofNat 64 ((droppedControls [entry]).map fun p => p.size.toNat).sum)
    (hgives : GivesRoutes st.generation st.log entry)
    (hdead : st'.alive = false → st'.dirtyRouteOrder = [] ∧ st'.controlPackets = [])
    (hnew : ∀ g r, entry = .route g r true → r ∈ st'.dirtyRouteOrder)
    (hold : entry.Leaves st.generation → ∀ r ∈ st.dirtyRouteOrder, r ∈ st'.dirtyRouteOrder) :
    Kept (st'.record entry) := by
  refine ⟨⟨hroutes.nodup, hroutes.sameSet, hroutes.routeBytes, hroutes.routeCount,
    hroutes.routeLimit, hroutes.routeSizes, hcontrols.controlBytes, hcontrols.controlCount,
    hcontrols.controlLimit, fun d hd => (hdifferences d hd).elim (h.differences d) id,
    ?_, ?_, ?_, ?_⟩, hdead, ?_⟩
  · show acceptedControls (st'.log ++ [entry]) = leftControls (st'.log ++ [entry]) ++ _
    rw [hlog, acceptedControls_append, leftControls_append, h.inOrder, append_assoc, horder,
      append_assoc]
    rfl
  · show st'.stats.droppedControlPackets = BitVec.ofNat 64 (droppedControls (st'.log ++ _)).length
    rw [hlog, droppedControls_append, hpackets, h.droppedPackets, length_append, ofNat_add]
  · show st'.stats.droppedControlBytes =
      BitVec.ofNat 64 ((droppedControls (st'.log ++ _)).map fun p => p.size.toNat).sum
    rw [hlog, droppedControls_append, hbytes, h.droppedBytes, map_append, sum_append,
      ofNat_add]
  · show History.Always (GivesRoutes st'.generation) (st'.log ++ [entry])
    rw [hgeneration, hlog]
    exact History.always_concat.mpr ⟨h.routesGiven, hgives⟩
  · intro g r hsince
    change History.Since (Entry.Leaves st'.generation) _ (st'.log ++ [entry]) at hsince
    rw [hgeneration, hlog] at hsince
    rcases History.since_concat.mp hsince with hthis | ⟨hleaves, hbefore⟩
    · exact hnew g r hthis
    · exact hold hleaves r (h.owed g r hbefore)

theorem kept_untouched {dropped : List (OwnedPacket w)} {entry : Entry w}
    (h : Kept st) (hsame : Untouched st st' dropped)
    (haccepted : acceptedControls [entry] = []) (hleft : leftControls [entry] = [])
    (hdropped : droppedControls [entry] = dropped)
    (hgives : GivesRoutes st.generation st.log entry)
    (howed : ∀ sourceGeneration route, entry = .route sourceGeneration route true →
      route ∈ st.dirtyRouteOrder) :
    Kept (st'.record entry) := by
  subst hdropped
  refine kept_record h hsame.generation hsame.log
    (h.routesSound hsame.limits hsame.dirtyRouteOrder hsame.dirtyRouteSet hsame.dirtyRouteBytes)
    (h.controlsSound hsame.limits hsame.controlPackets hsame.queuedControlBytes)
    hsame.differences ?_ hsame.droppedControlPackets hsame.droppedControlBytes hgives ?_
    (hsame.dirtyRouteOrder ▸ howed) fun _ _ hr => hsame.dirtyRouteOrder ▸ hr
  · rw [haccepted, hleft, hsame.controlPackets, append_nil, nil_append]
  · rw [hsame.alive, hsame.dirtyRouteOrder, hsame.controlPackets]
    exact h.dead

namespace Queues

theorem kept_enqueueRoute (h : Kept st) (sourceGeneration : ℕ) (route : Route w) :
    Kept (step st (.enqueueRoute sourceGeneration route)) := by
  rw [step]
  rcases enqueueRoute_cases st sourceGeneration route with
    ⟨st', heq, hsame, -, -⟩ | ⟨st', heq, hsame, -, -, hdirty⟩ | ⟨st', heq, hsame, -, -, -⟩ |
    ⟨st', heq, hq, -, halive, hnew, hroom⟩
  · rw [heq]
    exact kept_untouched h hsame rfl rfl rfl trivial fun _ _ he => absurd he (by simp)
  · rw [heq]
    refine kept_untouched h hsame rfl rfl rfl trivial fun _ r he => ?_
    obtain ⟨-, rfl, -⟩ := Entry.route.inj he
    rw [h.sameSet] at hdirty
    exact List.mem_toFinset.mp hdirty
  · rw [heq]
    exact kept_untouched h hsame rfl rfl rfl trivial fun _ _ he => absurd he (by simp)
  · -- the route is added to the list, the set and the sum
    rw [heq]
    obtain ⟨hsize, hcount, hbytes⟩ := overBudget_eq_false.mp hroom
    have hsum : (st.dirtyRouteBytes + route.size).toNat =
        st.dirtyRouteBytes.toNat + route.bytes.length := by
      rw [BitVec.toNat_add_of_lt (lt_of_le_of_lt hbytes (BitVec.isLt _)), Route.toNat_size]
    rw [h.sameSet, mem_toFinset] at hnew
    have hroutes : RoutesSound st' := by
      refine ⟨?_, ?_, ?_, ?_, ?_, ?_⟩
      · rw [hq.dirtyRouteOrder, nodup_append_comm]
        exact List.nodup_cons.mpr ⟨hnew, h.nodup⟩
      · rw [hq.dirtyRouteSet, hq.dirtyRouteOrder, h.sameSet, toFinset_append]
        ext r
        simp
      · rw [hq.dirtyRouteOrder, hq.dirtyRouteBytes, hsum, map_append, sum_append,
          h.routeBytes]
        simp
      · rw [hq.dirtyRouteOrder, hq.limits, length_append]
        exact hcount
      · rw [hq.dirtyRouteBytes, hq.limits, BitVec.le_def, hsum]
        rw [Route.toNat_size] at hbytes
        exact hbytes
      · rw [hq.dirtyRouteOrder, hq.limits]
        intro r hr
        rcases List.mem_append.mp hr with hold | hnew'
        · exact h.routeSizes r hold
        · rw [List.mem_singleton.mp hnew']
          exact hsize
    refine kept_record h hq.generation hq.log hroutes
      (h.controlsSound hq.limits hq.controlPackets hq.queuedControlBytes) hq.differences ?_ ?_ ?_
      trivial ?_ ?_ ?_
    · rw [hq.controlPackets]
      simp [acceptedControls, leftControls]
    · rw [hq.droppedControlPackets]
      simp [droppedControls]
    · rw [hq.droppedControlBytes]
      simp [droppedControls]
    · rw [hq.alive, halive]
      simp
    · intro g r hthis
      obtain ⟨-, rfl, -⟩ := Entry.route.inj hthis
      rw [hq.dirtyRouteOrder]
      exact mem_append_right _ (mem_singleton_self _)
    · rw [hq.dirtyRouteOrder]
      exact fun _ r hr => mem_append_left _ hr

theorem kept_enqueueControl (h : Kept st) (sourceGeneration : ℕ)
    (packet : OwnedPacket w) : Kept (step st (.enqueueControl sourceGeneration packet)) := by
  rw [step]
  rcases enqueueControl_cases st sourceGeneration packet with
    ⟨st', heq, hsame⟩ | ⟨st', heq, hq, halive, hcount, hbytes⟩
  · rw [heq]
    refine kept_untouched h hsame rfl rfl ?_ trivial fun _ _ he => absurd he (by simp)
    show (if packet.nonEmpty then [packet] else []) ++ [] = _
    exact append_nil _
  · rw [heq]
    have hsum : (st.stats.queuedControlBytes + packet.size).toNat =
        st.stats.queuedControlBytes.toNat + packet.size.toNat :=
      BitVec.toNat_add_of_lt (lt_of_le_of_lt hbytes (BitVec.isLt _))
    have hcontrols : ControlsSound st' := by
      refine ⟨?_, ?_, ?_⟩
      · rw [hq.controlPackets, hq.queuedControlBytes, hsum, map_append, sum_append,
          h.controlBytes]
        simp
      · rw [hq.controlPackets, hq.limits, length_append]
        exact hcount
      · rw [hq.queuedControlBytes, hq.limits, BitVec.le_def, hsum]
        exact hbytes
    refine kept_record h hq.generation hq.log
      (h.routesSound hq.limits hq.dirtyRouteOrder hq.dirtyRouteSet hq.dirtyRouteBytes) hcontrols
      hq.differences ?_ ?_ ?_ trivial ?_ (fun _ _ hthis => absurd hthis (by simp))
      fun _ _ hr => hq.dirtyRouteOrder ▸ hr
    · rw [hq.controlPackets]
      simp [acceptedControls, leftControls]
    · rw [hq.droppedControlPackets]
      simp [droppedControls]
    · rw [hq.droppedControlBytes]
      simp [droppedControls]
    · rw [hq.alive, halive]
      simp

theorem kept_emptied (h : Kept st) {entry : Entry w}
    (hgeneration : st'.generation = st.generation) (hlog : st'.log = st.log)
    (hdifferences : st'.differences = st.differences) (hleaves : ¬ entry.Leaves st.generation)
    (hroute : ∀ g r, entry ≠ .route g r true) (haccepted : acceptedControls [entry] = [])
    (hleft : leftControls [entry] = st.controlPackets) (hpackets : st'.stats.droppedControlPackets =
      st.stats.droppedControlPackets + BitVec.ofNat 64 (droppedControls [entry]).length)
    (hbytes : st'.stats.droppedControlBytes = st.stats.droppedControlBytes +
      BitVec.ofNat 64 ((droppedControls [entry]).map fun p => p.size.toNat).sum)
    (hgives : GivesRoutes st.generation st.log entry) :
    Kept (st'.emptied.record entry) := by
  refine kept_record h hgeneration hlog
    ⟨nodup_nil, rfl, by simp [emptied], Nat.zero_le _, BitVec.le_def.mpr (Nat.zero_le _),
      fun _ hr => absurd hr not_mem_nil⟩
    ⟨by simp [emptied], Nat.zero_le _, BitVec.le_def.mpr (Nat.zero_le _)⟩
    (fun d hd => .inl (hdifferences ▸ hd)) ?_ hpackets hbytes hgives (fun _ => ⟨rfl, rfl⟩)
    (fun g r hthis => absurd hthis (hroute g r)) fun hl => absurd hl hleaves
  rw [haccepted, hleft]
  rfl

theorem untouched_refl (st : Queues w) : Untouched st st [] :=
  ⟨rfl, rfl, rfl, rfl, rfl, rfl, rfl, rfl, by simp, by simp, fun _ hd => .inl hd, rfl⟩

theorem kept_drain (h : Kept st) (generation : ℕ) : Kept (step st (.drain generation)) := by
  rw [step, drain]
  by_cases hno : ¬ st.alive ∨ generation ≠ st.generation
  · rw [if_pos hno]
    refine kept_untouched h (untouched_refl st) rfl rfl rfl ?_ fun _ _ he => absurd he (by simp)
    -- queues that were invalidated owe nothing
    intro hgen g r hsince
    have hdead : st.alive = false := by
      rcases hno with hdead | hne
      · exact Bool.eq_false_of_not_eq_true hdead
      · exact absurd hgen hne
    have hmem := h.owed g r hsince
    rw [(h.dead hdead).1] at hmem
    exact absurd hmem not_mem_nil
  · rw [if_neg hno]
    obtain ⟨-, hgen⟩ := not_or.mp hno
    refine kept_emptied h rfl rfl rfl ?_ (fun _ _ => by simp) rfl ?_ ?_ ?_ ?_
    · exact fun hl => hl (not_not.mp hgen)
    · exact append_nil _
    · simp [droppedControls]
    · simp [droppedControls]
    · exact fun _ g r hsince => h.owed g r hsince

theorem foldl_dropControl (packets : List (OwnedPacket w)) (stats : Stats w) :
    (packets.foldl dropControl stats).droppedControlPackets =
        stats.droppedControlPackets + BitVec.ofNat 64 packets.length ∧
      (packets.foldl dropControl stats).droppedControlBytes =
        stats.droppedControlBytes +
          BitVec.ofNat 64 (packets.map fun p => p.size.toNat).sum := by
  induction packets generalizing stats with
  | nil => exact ⟨by simp, by simp⟩
  | cons packet packets ih =>
    obtain ⟨hpackets, hbytes⟩ := ih (dropControl stats packet)
    rw [foldl_cons]
    constructor
    · rw [hpackets, length_cons, Nat.add_comm packets.length, ofNat_add, ← BitVec.add_assoc]
      rfl
    · rw [hbytes, map_cons, sum_cons, ofNat_add, ← BitVec.add_assoc, ← setWidth_size]
      rfl

theorem kept_invalidate (h : Kept st) (generation : ℕ) :
    Kept (step st (.invalidate generation)) := by
  rw [step, invalidate]
  by_cases hgen : generation ≠ st.generation
  · rw [if_pos hgen]
    exact kept_untouched h (untouched_refl st) rfl rfl rfl trivial fun _ _ he => absurd he (by simp)
  rw [if_neg hgen]
  by_cases hdead : ¬ st.alive
  · rw [if_pos hdead]
    exact kept_untouched h (untouched_refl st) rfl rfl rfl trivial fun _ _ he => absurd he (by simp)
  rw [if_neg hdead]
  have hcontrols : ∀ batch : Batch w, droppedControls [Entry.invalidate generation batch] =
      batch.controls := fun batch => append_nil _
  refine kept_emptied h rfl rfl rfl ?_ (fun _ _ => by simp) rfl ?_ ?_ ?_ trivial
  · exact fun hl => hl (not_not.mp hgen)
  · exact append_nil _
  · rw [hcontrols]
    exact (foldl_dropControl st.controlPackets _).1
  · rw [hcontrols]
    exact (foldl_dropControl st.controlPackets _).2

theorem kept_step (h : Kept st) (call : Call w) : Kept (step st call) := by
  cases call with
  | enqueueRoute sourceGeneration route => exact kept_enqueueRoute h sourceGeneration route
  | enqueueControl sourceGeneration packet => exact kept_enqueueControl h sourceGeneration packet
  | drain generation => exact kept_drain h generation
  | invalidate generation => exact kept_invalidate h generation

theorem kept_exec (h : Kept st) (calls : List (Call w)) : Kept (Run.exec step st calls) := by
  have hkeep : ∀ (st : Queues w) (call : Call w), Kept st → True → Kept (step st call) :=
    fun _ call hs _ => kept_step hs call
  exact Run.Along.exec hkeep h (Run.along_of_mem (fun _ _ _ => trivial) _)

end Queues

end Delivery

/-- **Native delivery queues.**  After any calls, of any generations, sizes and limits: the dirty
routes are a list without repetitions, the same as the set and as long as the sum of bytes says;
the limits hold and no difference of sizes has wrapped; accepted control packets left in order, each
once, in a drain or an invalidation, or are still queued; an accepted route is in the next drain of
the generation, unless the queues were invalidated before it; and the packets that were refused or
discarded, but for the empty ones, are counted. -/
theorem delivery_queues_conserved {w : ℕ} (generation : ℕ) (limits : Delivery.Limits w)
    (calls : List (Delivery.Queues.Call w)) :
    Delivery.Conserved
      (Run.exec Delivery.Queues.step (Delivery.Queues.start generation limits) calls) :=
  (Delivery.Queues.kept_exec (Delivery.kept_start generation limits) calls).toConserved

def Delivery.Entry.NoDrain {w : ℕ} : Delivery.Entry w → Prop
  | .drain _ _ => False
  | _ => True

/-- Every route that was accepted is in the next drain, whatever lies between. -/
def Delivery.InNextDrain {w : ℕ} (before : List (Delivery.Entry w)) : Delivery.Entry w → Prop
  | .drain _ batch => ∀ sourceGeneration route,
    History.Since Delivery.Entry.NoDrain (.route sourceGeneration route true) before →
      route ∈ batch.routes
  | _ => True

def Delivery.Route.sample : Delivery.Route 64 := ⟨[97], by decide⟩

/-- A route is accepted, the queues are invalidated, and the next drain does not have it. -/
theorem invalidated_route :
    ¬ History.Always Delivery.InNextDrain
      (Run.exec Delivery.Queues.step (Delivery.Queues.start 1 {})
        [.enqueueRoute 1 Delivery.Route.sample, .invalidate 1, .drain 1]).log := by
  intro h
  have hnext := h [.route 1 Delivery.Route.sample true, .invalidate 1 ⟨[Delivery.Route.sample], []⟩]
    (.drain 1 ⟨[], []⟩) [] rfl
  refine absurd (hnext 1 Delivery.Route.sample ?_) not_mem_nil
  refine ⟨[], [.invalidate 1 ⟨[Delivery.Route.sample], []⟩], rfl, fun e he => ?_⟩
  rw [List.mem_singleton.mp he]
  trivial

end Nipworker
