/-
The room that registered routes have.
-/
import Nipworker.Native.RouteReservation
import Nipworker.Native.DeliveryConservation

namespace Nipworker

open Delivery (Route Queues Limits Kept overBudget)

namespace RouteTransport

variable {w : ℕ}

/-! ### What every run keeps -/

/-- The registered routes are what their list and their sum of bytes say, and each may be queued as
far as its own length is concerned; the queues keep what they keep. -/
structure Registered (st : RouteTransport w) : Prop where
  nodup : st.registeredRoutes.Nodup
  bytes : (st.registeredRoutes.map fun r => r.bytes.length).sum = st.registeredRouteBytes.toNat
  sizes : ∀ r ∈ st.registeredRoutes, r.bytes ≠ [] ∧ r.size ≤ st.queues.limits.maxRouteBytes
  alive : st.queues.alive = true
  kept : Kept st.queues

theorem registered_start (generation : ℕ) (limits : Limits w) :
    Registered (start generation limits) :=
  ⟨List.nodup_nil, by simp [start], by simp [start], rfl, Delivery.kept_start generation limits⟩

variable {st st' : RouteTransport w}

theorem registered_erase (h : Registered st) {route : Route w} (hmem : route ∈ st.registeredRoutes)
    (hroutes : st'.registeredRoutes = st.registeredRoutes.erase route)
    (hbytes : st'.registeredRouteBytes = st.registeredRouteBytes - route.size)
    (hqueues : st'.queues = st.queues) : Registered st' where
  nodup := hroutes ▸ h.nodup.erase route
  bytes := by
    have hsum : (st.registeredRoutes.map fun r => r.bytes.length).sum =
        route.bytes.length + ((st.registeredRoutes.erase route).map fun r => r.bytes.length).sum :=
      (List.sum_map_erase (fun r : Route w => r.bytes.length) hmem).symm
    rw [h.bytes] at hsum
    rw [hroutes, hbytes, BitVec.toNat_sub_of_le (by
      rw [BitVec.le_def, Delivery.Route.toNat_size]
      omega), Delivery.Route.toNat_size]
    omega
  sizes := fun r hr => by
    rw [hqueues]
    exact h.sizes r (List.mem_of_mem_erase (hroutes ▸ hr))
  alive := hqueues ▸ h.alive
  kept := hqueues ▸ h.kept

theorem Registered.of_eq (h : Registered st) (hroutes : st'.registeredRoutes = st.registeredRoutes)
    (hbytes : st'.registeredRouteBytes = st.registeredRouteBytes)
    (hqueues : st'.queues = st.queues) : Registered st' where
  nodup := hroutes ▸ h.nodup
  bytes := by rw [hroutes, hbytes, h.bytes]
  sizes := by
    rw [hroutes, hqueues]
    exact h.sizes
  alive := hqueues ▸ h.alive
  kept := hqueues ▸ h.kept

theorem consumeLease_same (st : RouteTransport w) (route : Route w) :
    (consumeLease st route).registeredRoutes = st.registeredRoutes ∧
      (consumeLease st route).registeredRouteBytes = st.registeredRouteBytes ∧
      (consumeLease st route).queues = st.queues := by
  rw [consumeLease]
  split
  · exact ⟨rfl, rfl, rfl⟩
  · split
    · split
      · exact ⟨rfl, rfl, rfl⟩
      · exact ⟨rfl, rfl, rfl⟩
    · exact ⟨rfl, rfl, rfl⟩

theorem recordLease_same (st : RouteTransport w) (route : Route w) :
    (recordLease st route).registeredRoutes = st.registeredRoutes ∧
      (recordLease st route).registeredRouteBytes = st.registeredRouteBytes ∧
      (recordLease st route).queues = st.queues := by
  rw [recordLease]
  split
  · exact ⟨rfl, rfl, rfl⟩
  · exact ⟨rfl, rfl, rfl⟩

/-- A step that registers nothing keeps the state well formed, registers no other routes and leaves
the queues as they are. -/
structure Fewer (st st' : RouteTransport w) : Prop where
  registered : Registered st'
  fewer : ∀ r ∈ st'.registeredRoutes, r ∈ st.registeredRoutes
  queues : st'.queues = st.queues

theorem fewer_rollbackRoute (h : Registered st) (route : Route w)
    (inserted : Bool) : Fewer st (rollbackRoute st route inserted) := by
  rw [rollbackRoute]
  split
  · exact ⟨h, fun _ hr => hr, rfl⟩
  · split
    · rename_i hmem
      exact ⟨registered_erase h hmem rfl rfl rfl, fun _ hr => List.mem_of_mem_erase hr, rfl⟩
    · exact ⟨h, fun _ hr => hr, rfl⟩

theorem fewer_cleanup (h : Registered st) : Fewer st (cleanup st) := by
  suffices ∀ (routes : List (Route w)) (s : RouteTransport w), Fewer st s → routes.Nodup →
      (∀ r ∈ routes, r ∈ s.registeredRoutes) →
      Fewer st (routes.foldl (fun st route =>
        if st.logicalLeases.lookup route = none then
          { st with
            registeredRoutes := st.registeredRoutes.erase route
            registeredRouteBytes := st.registeredRouteBytes - route.size }
        else st) s) from
    this st.registeredRoutes st ⟨h, fun _ hr => hr, rfl⟩ h.nodup fun _ hr => hr
  intro routes
  induction routes with
  | nil => exact fun s hs _ _ => hs
  | cons route routes ih =>
    intro s hs hnodup hmem
    obtain ⟨hnot, hnodup'⟩ := List.nodup_cons.mp hnodup
    rw [List.foldl_cons]
    by_cases hlease : s.logicalLeases.lookup route = none
    · rw [if_pos hlease]
      refine ih _ ⟨registered_erase hs.registered (hmem route List.mem_cons_self) rfl rfl rfl,
        fun r hr => hs.fewer r (List.mem_of_mem_erase hr), hs.queues⟩ hnodup' fun r hr => ?_
      have hne : r ≠ route := fun heq => hnot (heq ▸ hr)
      exact (List.mem_erase_of_ne hne).mpr (hmem r (List.mem_cons_of_mem _ hr))
    · rw [if_neg hlease]
      exact ih s hs hnodup' fun r hr => hmem r (List.mem_cons_of_mem _ hr)

/-! ### Emissions -/

theorem registered_emit (h : Registered st) (route : Route w) :
    Registered (emit st route) ∧ (emit st route).queues.limits = st.queues.limits := by
  have hkept := Delivery.Queues.kept_step h.kept (.enqueueRoute st.queues.generation route)
  have hsame : (emit st route).queues.limits = st.queues.limits ∧
      (emit st route).queues.alive = st.queues.alive := by
    show (Queues.enqueueRoute st.queues st.queues.generation route).2.limits = _ ∧
      (Queues.enqueueRoute st.queues st.queues.generation route).2.alive = _
    rcases Queues.enqueueRoute_cases st.queues st.queues.generation route with
      ⟨q, heq, hq, -⟩ | ⟨q, heq, hq, -⟩ | ⟨q, heq, hq, -⟩ | ⟨q, heq, hq, -⟩
    · rw [heq]
      exact ⟨hq.limits, hq.alive⟩
    · rw [heq]
      exact ⟨hq.limits, hq.alive⟩
    · rw [heq]
      exact ⟨hq.limits, hq.alive⟩
    · rw [heq]
      exact ⟨hq.limits, hq.alive⟩
  refine ⟨⟨h.nodup, h.bytes, ?_, hsame.2.trans h.alive, hkept⟩, hsame.1⟩
  intro r hr
  rw [hsame.1]
  exact h.sizes r hr

theorem emit_cases (h : Registered st) {route : Route w} (hmem : route ∈ st.registeredRoutes) :
    ((emit st route).queues.dirtyRouteSet = insert route st.queues.dirtyRouteSet ∧
        (emit st route).queues.stats.droppedRoutes = st.queues.stats.droppedRoutes) ∨
      ((emit st route).queues.stats.droppedRoutes = st.queues.stats.droppedRoutes + 1 ∧
        ¬ Fits st.queues.limits (insert route st.queues.dirtyRouteSet)) := by
  obtain ⟨hne, hsize⟩ := h.sizes route hmem
  show ((Queues.enqueueRoute st.queues st.queues.generation route).2.dirtyRouteSet = _ ∧
      (Queues.enqueueRoute st.queues st.queues.generation route).2.stats.droppedRoutes = _) ∨
    ((Queues.enqueueRoute st.queues st.queues.generation route).2.stats.droppedRoutes = _ ∧ _)
  rcases Queues.enqueueRoute_cases st.queues st.queues.generation route with
    ⟨q, heq, -, -, hno⟩ | ⟨q, heq, hq, hdrop, -, hdirty⟩ | ⟨q, heq, -, hdrop, hnew, hfull⟩ |
    ⟨q, heq, hq, hdrop, -, -, -⟩
  · exact absurd ⟨h.alive, rfl, hne⟩ hno
  · rw [heq]
    refine .inl ⟨?_, hdrop⟩
    rw [Finset.insert_eq_of_mem hdirty]
    exact hq.dirtyRouteSet
  · rw [heq]
    refine .inr ⟨hdrop, ?_⟩
    -- the routes in the queue and this one are the insertion
    have hkept := h.kept
    rw [hkept.sameSet, List.mem_toFinset] at hnew
    rintro ⟨hcard, hsum⟩
    rw [hkept.sameSet, Finset.card_insert_of_notMem (by rwa [List.mem_toFinset]),
      List.toFinset_card_of_nodup hkept.nodup] at hcard
    rw [hkept.sameSet, Finset.sum_insert (by rwa [List.mem_toFinset]),
      List.sum_toFinset _ hkept.nodup, hkept.routeBytes] at hsum
    have hroom : (overBudget st.queues.limits st.queues.dirtyRouteOrder.length
        st.queues.dirtyRouteBytes route.size).1 = false :=
      Delivery.overBudget_eq_false.mpr
        ⟨hsize, by omega, by rw [Delivery.Route.toNat_size]; omega⟩
    rw [hroom] at hfull
    exact absurd hfull (by simp)
  · rw [heq]
    exact .inl ⟨hq.dirtyRouteSet, hdrop⟩

theorem Fits.mono {limits : Limits w} {routes fewer : Finset (Route w)} (h : Fits limits routes)
    (hsub : fewer ⊆ routes) : Fits limits fewer :=
  ⟨(Finset.card_le_card hsub).trans h.1, (Finset.sum_le_sum_of_subset hsub).trans h.2⟩

theorem fits_dirty (h : Registered st) : Fits st.queues.limits st.queues.dirtyRouteSet := by
  have hkept := h.kept
  constructor
  · rw [hkept.sameSet, List.toFinset_card_of_nodup hkept.nodup]
    exact hkept.routeCount
  · rw [hkept.sameSet, List.sum_toFinset _ hkept.nodup, hkept.routeBytes]
    exact BitVec.le_def.mp hkept.routeLimit

theorem guaranteed_of_fits (h : Registered st)
    (hfits : Fits st.queues.limits st.occupied) (hdrop : st.queues.stats.droppedRoutes = 0) :
    Guaranteed st := by
  intro routes
  induction routes generalizing st with
  | nil => exact fun _ => hdrop
  | cons route routes ih =>
    intro hmem
    have hroute := hmem route List.mem_cons_self
    obtain ⟨hreg, hlimits⟩ := registered_emit h route
    rw [List.foldl_cons]
    rcases emit_cases h hroute with ⟨hdirty, hsame⟩ | ⟨-, hno⟩
    · refine ih hreg ?_ (hsame.trans hdrop) fun r hr => hmem r (List.mem_cons_of_mem _ hr)
      -- the emission makes no other routes registered or dirty
      rw [hlimits, occupied, hdirty]
      refine hfits.mono ?_
      show st.registeredRoutes.toFinset ∪ insert route st.queues.dirtyRouteSet ⊆ st.occupied
      refine Finset.union_subset Finset.subset_union_left (Finset.insert_subset ?_ ?_)
      · exact Finset.mem_union_left _ (List.mem_toFinset.mpr hroute)
      · exact Finset.subset_union_right
    · refine absurd (hfits.mono ?_) hno
      exact Finset.insert_subset (Finset.mem_union_left _ (List.mem_toFinset.mpr hroute))
        Finset.subset_union_right

theorem fits_emitted (h : Registered st) (routes : List (Route w))
    (hmem : ∀ r ∈ routes, r ∈ st.registeredRoutes) (hnone : ∀ before, before <+: routes →
      (before.foldl emit st).queues.stats.droppedRoutes = 0) :
    Fits st.queues.limits (routes.toFinset ∪ st.queues.dirtyRouteSet) := by
  induction routes generalizing st with
  | nil =>
    rw [List.toFinset_nil, Finset.empty_union]
    exact fits_dirty h
  | cons route routes ih =>
    obtain ⟨hreg, hlimits⟩ := registered_emit h route
    have hzero : st.queues.stats.droppedRoutes = 0 := hnone [] (List.nil_prefix ..)
    have hone : (emit st route).queues.stats.droppedRoutes = 0 :=
      hnone [route] ((List.prefix_cons_inj route).mpr (List.nil_prefix ..))
    rcases emit_cases h (hmem route List.mem_cons_self) with ⟨hdirty, -⟩ | ⟨hdrop, -⟩
    · have hrest := ih hreg (fun r hr => hmem r (List.mem_cons_of_mem _ hr)) fun before hb =>
        hnone (route :: before) ((List.prefix_cons_inj route).mpr hb)
      rw [hlimits, hdirty, Finset.union_insert] at hrest
      rw [List.toFinset_cons, Finset.insert_union]
      exact hrest
    · rw [hone, hzero] at hdrop
      exact absurd hdrop (by decide)

/-- **Reserved capacity.**  Registered routes are never refused exactly if they and the dirty ones
are within the limits together. -/
theorem guaranteed_iff (h : Registered st) :
    Guaranteed st ↔
      Fits st.queues.limits st.occupied ∧ st.queues.stats.droppedRoutes = 0 := by
  constructor
  · intro hall
    refine ⟨fits_emitted h st.registeredRoutes (fun _ hr => hr) fun before hb => ?_, ?_⟩
    · exact hall before fun r hr => hb.subset hr
    · exact hall [] fun r hr => absurd hr List.not_mem_nil
  · rintro ⟨hfits, hdrop⟩
    exact guaranteed_of_fits h hfits hdrop

/-! ### One step -/

theorem Fewer.guaranteed (hfewer : Fewer st st') (h : Registered st)
    (hg : Guaranteed st) : Guaranteed st' := by
  obtain ⟨hfits, hdrop⟩ := (guaranteed_iff h).mp hg
  refine (guaranteed_iff hfewer.registered).mpr ⟨?_, hfewer.queues ▸ hdrop⟩
  rw [occupied, hfewer.queues]
  refine hfits.mono (Finset.union_subset_union ?_ (Finset.Subset.refl _))
  intro r hr
  exact List.mem_toFinset.mpr (hfewer.fewer r (List.mem_toFinset.mp hr))

theorem enter_cases (h : Registered st) (call : HostCall) (route : Route w) :
    (Fewer st (step st (.enter call route)) ∧
        ¬ (st.calling = none ∧ route.bytes ≠ [] ∧ route ∉ st.registeredRoutes ∧
          st.admits route = true)) ∨
      ((step st (.enter call route)).queues = st.queues ∧
        (step st (.enter call route)).registeredRoutes = st.registeredRoutes ++ [route] ∧
        Registered (step st (.enter call route)) ∧
        st.calling = none ∧ route.bytes ≠ [] ∧ route ∉ st.registeredRoutes ∧
          st.admits route = true) := by
  rw [step]
  cases hcall : st.calling with
  | some c =>
    refine .inl ⟨⟨h, fun _ hr => hr, rfl⟩, ?_⟩
    rintro ⟨hc, -⟩
    exact absurd hc (by simp)
  | none =>
    simp only []
    rw [reserveRoute]
    by_cases hempty : route.bytes = []
    · rw [if_pos hempty]
      exact .inl ⟨⟨h, fun _ hr => hr, rfl⟩, fun hc => hc.2.1 hempty⟩
    rw [if_neg hempty, if_neg (not_not.mpr h.alive)]
    by_cases hmem : route ∈ st.registeredRoutes
    · rw [if_pos hmem]
      exact .inl ⟨⟨h.of_eq rfl rfl rfl, fun _ hr => hr, rfl⟩, fun hc => hc.2.2.1 hmem⟩
    rw [if_neg hmem]
    by_cases hadmits : ¬ st.admits route
    · rw [if_pos hadmits]
      exact .inl ⟨⟨h, fun _ hr => hr, rfl⟩, fun hc => hadmits hc.2.2.2⟩
    rw [if_neg hadmits]
    refine .inr ⟨rfl, rfl, ?_, trivial, hempty, hmem, not_not.mp hadmits⟩
    -- the sum of bytes does not wrap: the route was within the limits
    have hroom : (overBudget st.queues.limits st.registeredRoutes.length st.registeredRouteBytes
        route.size).1 = false := by
      have hadm := not_not.mp hadmits
      rw [admits, Bool.not_eq_true'] at hadm
      exact hadm
    obtain ⟨hsize, -, hbytes⟩ := Delivery.overBudget_eq_false.mp hroom
    refine ⟨?_, ?_, ?_, h.alive, h.kept⟩
    · show (st.registeredRoutes ++ [route]).Nodup
      rw [List.nodup_append_comm]
      exact List.nodup_cons.mpr ⟨hmem, h.nodup⟩
    · show ((st.registeredRoutes ++ [route]).map fun r => r.bytes.length).sum =
        (st.registeredRouteBytes + route.size).toNat
      rw [BitVec.toNat_add_of_lt (lt_of_le_of_lt hbytes (BitVec.isLt _)),
        Delivery.Route.toNat_size, List.map_append, List.sum_append, h.bytes]
      simp
    · intro r hr
      rcases List.mem_append.mp hr with hold | hnew
      · exact h.sizes r hold
      · rw [List.mem_singleton.mp hnew]
        exact ⟨hempty, hsize⟩

theorem drain_same (h : Registered st) :
    (step st .drainPending).queues.dirtyRouteSet = ∅ ∧
      (step st .drainPending).queues.limits = st.queues.limits ∧
      (step st .drainPending).queues.alive = true ∧
      (step st .drainPending).queues.stats.droppedRoutes = st.queues.stats.droppedRoutes := by
  have hlive : ¬ (¬ st.queues.alive ∨ st.queues.generation ≠ st.queues.generation) := by
    rw [h.alive]
    simp
  show (Queues.drain st.queues st.queues.generation).2.dirtyRouteSet = ∅ ∧
    (Queues.drain st.queues st.queues.generation).2.limits = st.queues.limits ∧
    (Queues.drain st.queues st.queues.generation).2.alive = true ∧
    (Queues.drain st.queues st.queues.generation).2.stats.droppedRoutes = _
  rw [Queues.drain, if_neg hlive]
  exact ⟨rfl, rfl, h.alive, rfl⟩

theorem registered_step (h : Registered st) (act : Act w) : Registered (step st act) := by
  cases act with
  | enter call route =>
    rcases enter_cases h call route with ⟨hfewer, -⟩ | ⟨-, -, hreg, -⟩
    · exact hfewer.registered
    · exact hreg
  | leave taken =>
    rw [step]
    split
    · exact h
    · have hended : Registered { st with calling := none } := h.of_eq rfl rfl rfl
      cases taken with
      | true =>
        obtain ⟨hroutes, hbytes, hqueues⟩ := recordLease_same { st with calling := none } _
        exact hended.of_eq hroutes hbytes hqueues
      | false => exact (fewer_rollbackRoute hended _ _).registered
  | retainSubscription route =>
    obtain ⟨hroutes, hbytes, hqueues⟩ := recordLease_same st route
    exact h.of_eq hroutes hbytes hqueues
  | releaseSubscription route =>
    obtain ⟨hroutes, hbytes, hqueues⟩ := consumeLease_same st route
    exact h.of_eq hroutes hbytes hqueues
  | cleanupSubscriptions => exact (fewer_cleanup h).registered
  | emit route =>
    rw [step]
    split
    · exact (registered_emit h route).1
    · exact h
  | drainPending =>
    obtain ⟨-, hlimits, halive, -⟩ := drain_same h
    refine ⟨h.nodup, h.bytes, ?_, halive,
      Delivery.Queues.kept_step h.kept (.drain st.queues.generation)⟩
    intro r hr
    rw [hlimits]
    exact h.sizes r hr

/-- A step keeps the guarantee exactly if it leaves room. -/
theorem guaranteed_step (h : Registered st) (hg : Guaranteed st)
    (act : Act w) : Guaranteed (step st act) ↔ RoomLeft st act := by
  obtain ⟨hfits, hdrop⟩ := (guaranteed_iff h).mp hg
  cases act with
  | enter call route =>
    rcases enter_cases h call route with ⟨hfewer, hno⟩ | ⟨hqueues, hroutes, hreg, hnew⟩
    · refine iff_of_true (hfewer.guaranteed h hg) ?_
      intro hc hne _ hmem hadm
      exact absurd ⟨hc, hne, hmem, hadm⟩ hno
    · have hocc : (step st (.enter call route)).occupied = insert route st.occupied := by
        rw [occupied, hqueues, hroutes, List.toFinset_append, occupied]
        ext r
        simp
      rw [guaranteed_iff hreg, hqueues, hocc]
      constructor
      · rintro ⟨hfits', -⟩ _ _ _ _ _
        exact hfits'
      · intro hroom
        exact ⟨hroom hnew.1 hnew.2.1 h.alive hnew.2.2.1 hnew.2.2.2, hdrop⟩
  | leave taken =>
    refine iff_of_true ?_ trivial
    rw [step]
    split
    · exact hg
    · have hended : Fewer st { st with calling := none } :=
        ⟨h.of_eq rfl rfl rfl, fun _ hr => hr, rfl⟩
      have hg' := hended.guaranteed h hg
      cases taken with
      | true =>
        obtain ⟨hroutes, hbytes, hqueues⟩ := recordLease_same { st with calling := none } _
        refine Fewer.guaranteed ⟨hended.registered.of_eq hroutes hbytes hqueues, ?_, hqueues⟩
          hended.registered hg'
        intro r hr
        exact hroutes ▸ hr
      | false => exact (fewer_rollbackRoute hended.registered _ _).guaranteed hended.registered hg'
  | retainSubscription route =>
    refine iff_of_true ?_ trivial
    obtain ⟨hroutes, hbytes, hqueues⟩ := recordLease_same st route
    refine Fewer.guaranteed ⟨h.of_eq hroutes hbytes hqueues, ?_, hqueues⟩ h hg
    intro r hr
    exact hroutes ▸ hr
  | releaseSubscription route =>
    refine iff_of_true ?_ trivial
    obtain ⟨hroutes, hbytes, hqueues⟩ := consumeLease_same st route
    refine Fewer.guaranteed ⟨h.of_eq hroutes hbytes hqueues, ?_, hqueues⟩ h hg
    intro r hr
    exact hroutes ▸ hr
  | cleanupSubscriptions => exact iff_of_true ((fewer_cleanup h).guaranteed h hg) trivial
  | emit route =>
    refine iff_of_true ?_ trivial
    rw [step]
    split
    · -- the guarantee covers this emission and those after it
      rename_i hmem
      intro routes hroutes
      exact hg (route :: routes) fun r hr => (List.mem_cons.mp hr).elim (fun heq => heq ▸ hmem)
        (hroutes r)
    · exact hg
  | drainPending =>
    refine iff_of_true ?_ trivial
    obtain ⟨hset, hlimits, -, hsame⟩ := drain_same h
    refine (guaranteed_iff (registered_step h .drainPending)).mpr ⟨?_, hsame.trans hdrop⟩
    rw [hlimits, occupied, hset, Finset.union_empty]
    exact hfits.mono Finset.subset_union_left

theorem guaranteed_exec (h : Registered st) (hg : Guaranteed st) (acts : List (Act w)) :
    (∀ before, before <+: acts → Guaranteed (Run.exec step st before)) ↔
      Run.Along step RoomLeft st acts := by
  induction acts generalizing st with
  | nil =>
    refine iff_of_true ?_ trivial
    intro before hbefore
    rw [List.prefix_nil.mp hbefore]
    exact hg
  | cons act acts ih =>
    constructor
    · intro hall
      have hstep : Guaranteed (step st act) := hall [act] ⟨acts, rfl⟩
      refine ⟨(guaranteed_step h hg act).mp hstep, (ih (registered_step h act) hstep).mp ?_⟩
      intro before hbefore
      exact hall (act :: before) ((List.prefix_cons_inj act).mpr hbefore)
    · rintro ⟨hroom, hrest⟩ before hbefore
      have hstep := (guaranteed_step h hg act).mpr hroom
      cases before with
      | nil => exact hg
      | cons b before =>
        obtain ⟨rfl, hbefore'⟩ := List.cons_prefix_cons.mp hbefore
        exact (ih (registered_step h b) hstep).mpr hrest before hbefore'

end RouteTransport

/-- **Every registered route has reserved delivery capacity.**  In every state of a run no
registered route has been or can be refused, if and only if each route that is newly registered has
room next to those that are registered or dirty. -/
theorem route_capacity_iff {w : ℕ} (generation : ℕ) (limits : Limits w)
    (acts : List (RouteTransport.Act w)) :
    (∀ before, before <+: acts → RouteTransport.Guaranteed
        (Run.exec RouteTransport.step (RouteTransport.start generation limits) before)) ↔
      Run.Along RouteTransport.step RouteTransport.RoomLeft
        (RouteTransport.start generation limits) acts := by
  have hstart := RouteTransport.registered_start generation limits
  refine RouteTransport.guaranteed_exec hstart ?_ acts
  refine (RouteTransport.guaranteed_iff hstart).mpr ⟨?_, rfl⟩
  exact ⟨Nat.zero_le _, Nat.zero_le _⟩

/-- With room for one route: a route is registered, emitted, released and cleaned up while its wake
waits; the next one is registered, and refused. -/
theorem cleanup_then_dropped :
    (Run.exec RouteTransport.step
      (RouteTransport.start 1 { maxDirtyRoutes := 1 : Limits 64 })
      [.enter .registerSubscription ⟨[97], by decide⟩, .leave true, .emit ⟨[97], by decide⟩,
        .releaseSubscription ⟨[97], by decide⟩, .cleanupSubscriptions,
        .enter .registerSubscription ⟨[98], by decide⟩, .leave true,
        .emit ⟨[98], by decide⟩]).queues.stats.droppedRoutes = 1 := by
  rfl

end Nipworker
