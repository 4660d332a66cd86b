/-
When the leases of the native runtime account for its references.

Every reference that the transport holds is leased, or in the hand of the host function that runs,
or owed by an invalidation.
-/
import Nipworker.Native.LogicalLeases

namespace Nipworker

open List

namespace LeaseState

/-! ### The references that are owed -/

/-- The reference that the host function has in hand: taken and not recorded, or to be released. -/
def HostPc.inHand (r : Route) : HostPc → ℕ
  | .reserveRoute _ _ => 0
  | .engineCall _ _ => 0
  | .createPinnedBuffer route => if cString route = r then 1 else 0
  | .recordLease route => if cString route = r then 1 else 0
  | .consumeLease _ => 0
  | .engineRelease route => if cString route = r then 1 else 0

/-- The references that an invalidation has still to release. -/
def InvalidatePc.inHand (r : Route) : InvalidatePc → ℕ
  | .aliveCheck => 0
  | .unbind => 0
  | .invalidateState => 0
  | .swapLeases => 0
  | .releasing rest => (rest.map cString).count r
  | .returned => 0

def hostInHand (r : Route) : Option HostPc → ℕ
  | some pc => pc.inHand r
  | none => 0

def owed (r : Route) (invalidations : List InvalidatePc) : ℕ :=
  (invalidations.map (InvalidatePc.inHand r)).sum

def InvalidatePc.late : InvalidatePc → Bool
  | .swapLeases => true
  | .releasing _ => true
  | .returned => true
  | _ => false

/-- What every run keeps, if leases are recorded as they should be: every reference is leased, in
hand or owed; an invalidation that is late found the transport invalidated; and then the leases are
gone, or an invalidation is about to take them. -/
structure Kept (st : LeaseState) : Prop where
  conserved : ∀ r, st.references r =
    st.logicalLeases.count r + hostInHand r st.host + owed r st.invalidations
  readable : ∀ r, st.logicalLeases.count r ≠ 0 → cString r = r
  late : ∀ pc ∈ st.invalidations, pc.late = true → st.alive = false
  swapped : st.alive = false →
    st.logicalLeases = Holders.empty ∨ .swapLeases ∈ st.invalidations

theorem kept_start : Kept start :=
  ⟨fun _ => rfl, by simp [start], by simp [start], by simp [start]⟩

theorem balanced_of_kept {st : LeaseState} (h : Kept st) : Balanced st := by
  rintro ⟨hhost, hquiet⟩
  have howed : ∀ r, owed r st.invalidations = 0 := by
    intro r
    refine sum_eq_zero fun n hn => ?_
    obtain ⟨pc, hpc, rfl⟩ := List.mem_map.mp hn
    rw [hquiet pc hpc]
    rfl
  have hleases : ∀ r, st.references r = st.logicalLeases.count r := by
    intro r
    rw [h.conserved, hhost, howed]
    simp [hostInHand]
  refine ⟨hleases, fun hne r => ?_⟩
  -- an invalidation that returned has seen the leases gone
  obtain ⟨pc, hpc⟩ := exists_mem_of_ne_nil _ hne
  have hdead := h.late pc hpc (by rw [hquiet pc hpc]; rfl)
  rcases h.swapped hdead with hempty | hswap
  · rw [hleases, hempty]
    rfl
  · exact absurd (hquiet _ hswap) (by simp)

/-! ### The sections -/

theorem kept_advance {st : LeaseState} (h : Kept st) (answer : Bool) {pc : HostPc}
    (hpc : st.host = some pc)
    (hrecord : ∀ route, pc = .recordLease route → st.alive = true ∧ cString route = route)
    (hengine : answer = true → ∀ call route, pc = .engineCall call route →
      call.engineRoute route = cString route) : Kept (advance st answer pc) := by
  have hold : ∀ r, st.references r =
      st.logicalLeases.count r + pc.inHand r + owed r st.invalidations := by
    intro r
    rw [h.conserved, hpc]
    rfl
  cases pc with
  | reserveRoute call route =>
    rw [advance]
    split
    · exact ⟨hold, h.readable, h.late, h.swapped⟩
    · exact ⟨hold, h.readable, h.late, h.swapped⟩
  | engineCall call route =>
    rw [advance]
    split
    · next hanswer =>
      refine ⟨fun r => ?_, h.readable, h.late, h.swapped⟩
      -- the reference is in hand, with a buffer asked for or not
      have hhand : (if call.pins then HostPc.createPinnedBuffer route
          else .recordLease route).inHand r = if cString route = r then 1 else 0 := by
        split
        · rfl
        · rfl
      show st.references r + (if call.engineRoute route = r then 1 else 0) =
        st.logicalLeases.count r + ((if call.pins then HostPc.createPinnedBuffer route
          else .recordLease route).inHand r : ℕ) + owed r st.invalidations
      rw [hold, hhand, HostPc.inHand, hengine hanswer call route rfl]
      push_cast
      ring
    · exact ⟨hold, h.readable, h.late, h.swapped⟩
  | createPinnedBuffer route =>
    rw [advance]
    split
    · exact ⟨hold, h.readable, h.late, h.swapped⟩
    · exact ⟨hold, h.readable, h.late, h.swapped⟩
  | recordLease route =>
    obtain ⟨halive, hread⟩ := hrecord route rfl
    rw [advance, if_pos halive]
    refine ⟨fun r => ?_, fun r hr => ?_, h.late, fun hdead => ?_⟩
    · show st.references r =
        ((st.logicalLeases.add route).count r : ℕ) + (0 : ℕ) + owed r st.invalidations
      rw [hold, Holders.count_add, HostPc.inHand, hread]
      simp only [eq_comm]
      push_cast
      ring
    · by_cases heq : r = route
      · rw [heq, hread]
      · refine h.readable r ?_
        have hcount : (st.logicalLeases.add route).count r ≠ 0 := hr
        rw [Holders.count_add, if_neg heq, Nat.add_zero] at hcount
        exact hcount
    · change st.alive = false at hdead
      rw [halive] at hdead
      exact absurd hdead (by simp)
  | consumeLease route =>
    rw [advance]
    split
    · exact ⟨hold, h.readable, h.late, h.swapped⟩
    · split
      · exact ⟨hold, h.readable, h.late, h.swapped⟩
      · rename_i halive hcount
        refine ⟨fun r => ?_, fun r hr => ?_, h.late, fun hdead => ?_⟩
        · show st.references r = ((st.logicalLeases.drop route).count r : ℕ) +
            ((HostPc.engineRelease route).inHand r : ℕ) + owed r st.invalidations
          rw [hold, Holders.count_drop, HostPc.inHand, HostPc.inHand, h.readable route hcount]
          by_cases heq : route = r
          · subst heq
            rw [if_pos rfl]
            omega
          · rw [if_neg (Ne.symm heq), if_neg heq]
            omega
        · refine h.readable r ?_
          have hdrop : (st.logicalLeases.drop route).count r ≠ 0 := hr
          rw [Holders.count_drop] at hdrop
          omega
        · change st.alive = false at hdead
          rw [hdead] at halive
          exact absurd halive (by simp)
  | engineRelease route =>
    rw [advance]
    refine ⟨fun r => ?_, h.readable, h.late, h.swapped⟩
    show st.references r + (if cString route = r then (-1) else 0) =
      st.logicalLeases.count r + (0 : ℕ) + owed r st.invalidations
    rw [hold, HostPc.inHand]
    split
    · push_cast
      ring
    · push_cast
      ring

theorem sum_map_set {α : Type*} (f : α → ℕ) (a b : α) (l : List α) (i : ℕ)
    (ha : l[i]? = some a) : ((l.set i b).map f).sum + f a = (l.map f).sum + f b := by
  induction l generalizing i with
  | nil => exact absurd ha (by simp)
  | cons c l ih =>
    cases i with
    | zero =>
      rw [List.getElem?_cons_zero] at ha
      rw [Option.some.inj ha, set_cons_zero, map_cons, map_cons, sum_cons,
        sum_cons]
      omega
    | succ i =>
      have hrest := ih i (by rwa [List.getElem?_cons_succ] at ha)
      rw [set_cons_succ, map_cons, map_cons, sum_cons, sum_cons]
      omega

theorem count_replicates {l : List (Route × ℕ)} (hl : (l.map Prod.fst).Nodup) (r : Route) :
    (l.flatMap fun e => List.replicate e.2 e.1).count r = Holders.countIn r l := by
  induction l with
  | nil => rfl
  | cons e l ih =>
    obtain ⟨hnew, hrest⟩ := List.nodup_cons.mp hl
    obtain ⟨route, n⟩ := e
    rw [flatMap_cons, count_append, ih hrest, Holders.countIn, count_replicate]
    by_cases heq : route = r
    · subst heq
      rw [if_pos rfl, Holders.countIn_eq_zero hnew]
      simp
    · rw [if_neg heq, if_neg (by simpa using heq), Nat.zero_add]

theorem count_leasedRoutes {leases : Holders Route}
    (hread : ∀ r, leases.count r ≠ 0 → cString r = r) (r : Route) :
    ((leasedRoutes leases).map cString).count r = leases.count r := by
  have hid : (leasedRoutes leases).map cString = leasedRoutes leases := by
    rw [map_congr_left fun route hroute => ?_, map_id]
    -- a leased route has a positive count
    refine hread route ?_
    rw [Holders.count, ← count_replicates leases.nodup route]
    exact (List.count_pos_iff.mpr hroute).ne'
  rw [hid]
  exact count_replicates leases.nodup r

theorem kept_goOn {st : LeaseState} (h : Kept st) {thread : ℕ} {pc : InvalidatePc}
    (hpc : st.invalidations[thread]? = some pc) :
    Kept { (invalidateSection st pc).1 with
      invalidations := st.invalidations.set thread (invalidateSection st pc).2 } := by
  have hmem : pc ∈ st.invalidations := mem_of_getElem? hpc
  have howed : ∀ (r : Route) (pc' : InvalidatePc),
      owed r (st.invalidations.set thread pc') + pc.inHand r =
        owed r st.invalidations + pc'.inHand r :=
    fun r pc' => sum_map_set (InvalidatePc.inHand r) pc pc' st.invalidations thread hpc
  have hset : ∀ pc', pc' ∈ st.invalidations.set thread (invalidateSection st pc).2 →
      pc' ∈ st.invalidations ∨ pc' = (invalidateSection st pc).2 :=
    fun pc' hpc' => (mem_or_eq_of_mem_set hpc').imp id id
  have hkeep : ∀ q ∈ st.invalidations, q ≠ pc →
      q ∈ st.invalidations.set thread (invalidateSection st pc).2 := by
    intro q hq hne
    obtain ⟨i, hi⟩ := mem_iff_getElem?.mp hq
    refine mem_iff_getElem?.mpr ⟨i, ?_⟩
    rw [List.getElem?_set_ne, hi]
    rintro rfl
    rw [hpc] at hi
    exact hne (Option.some.inj hi).symm
  cases pc with
  | aliveCheck =>
    refine ⟨fun r => ?_, h.readable, fun q hq hlate => ?_, fun hdead => ?_⟩
    · have hw := howed r (invalidateSection st .aliveCheck).2
      have hzero : (invalidateSection st .aliveCheck).2.inHand r = 0 := by
        show (if ¬ st.alive then InvalidatePc.returned else .unbind).inHand r = 0
        split
        · rfl
        · rfl
      rw [hzero] at hw
      show st.references r = st.logicalLeases.count r + hostInHand r st.host +
        (owed r (st.invalidations.set thread (invalidateSection st .aliveCheck).2) : ℕ)
      rw [h.conserved, Nat.add_right_cancel hw]
    · rcases hset q hq with hold | hnew
      · exact h.late q hold hlate
      · -- it returns at once only if the transport is not alive
        show st.alive = false
        rw [hnew] at hlate
        by_cases halive : st.alive
        · rw [invalidateSection, if_neg (not_not.mpr halive)] at hlate
          exact absurd hlate Bool.false_ne_true
        · exact Bool.eq_false_of_not_eq_true halive
    · exact (h.swapped hdead).imp_right fun hs => hkeep _ hs (by simp)
  | unbind =>
    refine ⟨fun r => ?_, h.readable, fun q hq hlate => ?_, fun hdead => ?_⟩
    · show st.references r = st.logicalLeases.count r + hostInHand r st.host +
        (owed r (st.invalidations.set thread .invalidateState) : ℕ)
      rw [h.conserved, Nat.add_right_cancel (howed r .invalidateState)]
    · rcases hset q hq with hold | hnew
      · exact h.late q hold hlate
      · rw [hnew] at hlate
        exact absurd hlate Bool.false_ne_true
    · exact (h.swapped hdead).imp_right fun hs => hkeep _ hs (by simp)
  | invalidateState =>
    refine ⟨fun r => ?_, h.readable, fun _ _ _ => rfl, fun _ => .inr ?_⟩
    · show st.references r = st.logicalLeases.count r + hostInHand r st.host +
        (owed r (st.invalidations.set thread .swapLeases) : ℕ)
      rw [h.conserved, Nat.add_right_cancel (howed r .swapLeases)]
    · exact mem_set (List.getElem?_eq_some_iff.mp hpc).1 _
  | swapLeases =>
    have hdead := h.late _ hmem rfl
    refine ⟨fun r => ?_, fun r hr => absurd rfl hr, fun _ _ _ => hdead, fun _ => .inl rfl⟩
    have hw := howed r (.releasing (leasedRoutes st.logicalLeases))
    rw [InvalidatePc.inHand, InvalidatePc.inHand, count_leasedRoutes h.readable, Nat.add_zero]
      at hw
    show st.references r = (0 : ℕ) + hostInHand r st.host +
      (owed r (st.invalidations.set thread (.releasing (leasedRoutes st.logicalLeases))) : ℕ)
    rw [h.conserved, hw]
    push_cast
    ring
  | releasing rest =>
    have hdead := h.late _ hmem rfl
    have hgone : st.logicalLeases = Holders.empty ∨
        .swapLeases ∈ st.invalidations.set thread (invalidateSection st (.releasing rest)).2 :=
      (h.swapped hdead).imp_right fun hs => hkeep _ hs (by simp)
    cases rest with
    | nil =>
      refine ⟨fun r => ?_, h.readable, fun _ _ _ => hdead, fun _ => hgone⟩
      show st.references r = st.logicalLeases.count r + hostInHand r st.host +
        (owed r (st.invalidations.set thread .returned) : ℕ)
      rw [h.conserved, Nat.add_right_cancel (howed r .returned)]
    | cons route rest =>
      refine ⟨fun r => ?_, h.readable, fun _ _ _ => hdead, fun _ => hgone⟩
      have hw := howed r (.releasing rest)
      rw [InvalidatePc.inHand, InvalidatePc.inHand, map_cons, count_cons] at hw
      show st.references r + (if cString route = r then (-1) else 0) =
        st.logicalLeases.count r + hostInHand r st.host +
          (owed r (st.invalidations.set thread (.releasing rest)) : ℕ)
      rw [h.conserved]
      by_cases heq : cString route = r
      · rw [if_pos heq]
        rw [if_pos (by simpa using heq)] at hw
        omega
      · rw [if_neg heq]
        rw [if_neg (by simpa using heq)] at hw
        omega
  | returned =>
    have hsame : st.invalidations.set thread .returned = st.invalidations := by
      obtain ⟨hlt, heq⟩ := List.getElem?_eq_some_iff.mp hpc
      rw [← heq, set_getElem_self]
    show Kept { st with invalidations := st.invalidations.set thread .returned }
    rw [hsame]
    exact h

theorem kept_step (st : LeaseState) (act : Act) (h : Kept st) (hrecord : Recordable st act) :
    Kept (step st act) := by
  cases act with
  | enter call route =>
    rw [step]
    split
    · rename_i hnone
      refine ⟨fun r => ?_, h.readable, h.late, h.swapped⟩
      -- at its first section a function has nothing in hand
      have hentry : (call.entry route).inHand r = 0 := by
        rw [HostCall.entry]
        split
        · rfl
        · split
          · rfl
          · rfl
      show st.references r = st.logicalLeases.count r + ((call.entry route).inHand r : ℕ) +
        owed r st.invalidations
      rw [h.conserved, hnone, hentry]
      rfl
    · exact h
  | host answer =>
    rw [step]
    split
    · exact h
    · rename_i pc hpc
      refine kept_advance h answer hpc (fun route heq => hrecord.1 route ?_)
        fun hanswer call route heq => hrecord.2 hanswer call route ?_
      · rw [hpc, heq]
      · rw [hpc, heq]
  | invalidate =>
    refine ⟨fun r => ?_, h.readable, fun pc hpc hlate => ?_, fun hdead => ?_⟩
    · show st.references r = st.logicalLeases.count r + hostInHand r st.host +
        (owed r (st.invalidations ++ [.aliveCheck]) : ℕ)
      rw [h.conserved, owed, owed, map_append, sum_append]
      rfl
    · rcases List.mem_append.mp hpc with hold | hnew
      · exact h.late pc hold hlate
      · rw [List.mem_singleton.mp hnew] at hlate
        exact absurd hlate (by decide)
    · exact (h.swapped hdead).imp_right fun hs => mem_append_left _ hs
  | goOn thread =>
    rw [step]
    split
    · exact h
    · rename_i pc hpc
      exact kept_goOn h hpc

theorem kept_exec {acts : List Act} (h : Run.Along step Recordable start acts) :
    Kept (Run.exec step start acts) :=
  Run.Along.exec kept_step kept_start h

end LeaseState

/-- **Native leases are conserved.**  In every run in which leases are recorded while the transport
is alive, and the engine reads their routes as they are, the references are the leases whenever no call is in progress, and
all zero once `invalidate` has returned. -/
theorem leases_balanced (acts : List LeaseState.Act)
    (h : Run.Along LeaseState.step LeaseState.Recordable LeaseState.start acts)
    (before : List LeaseState.Act) (hbefore : before <+: acts) :
    LeaseState.Balanced (Run.exec LeaseState.step LeaseState.start before) := by
  obtain ⟨after, rfl⟩ := hbefore
  exact LeaseState.balanced_of_kept
    (LeaseState.kept_exec ((Run.along_append _ before after).mp h).1)

/-- A subscription that is registered, released again, and a transport that is invalidated. -/
theorem leases_balanced_sample :
    LeaseState.Balanced (Run.exec LeaseState.step LeaseState.start
      [.enter .registerSubscription [97], .host true, .host true, .host true, .invalidate, .goOn 0,
        .goOn 0, .goOn 0, .goOn 0, .goOn 0, .goOn 0]) := by
  refine leases_balanced _ ?_ _ prefix_rfl
  refine ⟨trivial, ⟨?_, ?_⟩, ⟨?_, ?_⟩, ⟨?_, ?_⟩, trivial, trivial, trivial, trivial, trivial,
    trivial, trivial, trivial⟩
  · intro route hroute
    exact nomatch hroute
  · intro _ call route hroute
    exact nomatch hroute
  · intro route hroute
    exact nomatch hroute
  · intro _ call route hroute
    obtain ⟨rfl, rfl⟩ := LeaseState.HostPc.engineCall.inj (Option.some.inj hroute)
    rfl
  · intro route hroute
    obtain rfl := LeaseState.HostPc.recordLease.inj (Option.some.inj hroute)
    exact ⟨rfl, by decide⟩
  · intro _ call route hroute
    exact nomatch hroute

/-- The transport is invalidated between the reference and its lease: the reference stays, and no
lease knows of it. -/
theorem lease_lost :
    ¬ LeaseState.Balanced (Run.exec LeaseState.step LeaseState.start
      [.enter .registerSubscription [97], .host true, .host true, .invalidate, .goOn 0, .goOn 0,
        .goOn 0, .goOn 0, .goOn 0, .host true]) := by
  intro h
  have hzero := (h ⟨rfl, by decide⟩).1 [97]
  exact absurd hzero (by decide)

end Nipworker
