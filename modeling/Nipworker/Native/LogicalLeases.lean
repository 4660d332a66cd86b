/-
Leases of the native runtime (`react-native/cpp/NipworkerReactNativeJSI.cpp`).

A host function that subscribes, publishes, registers or retains takes a reference of the engine on
its route and then records a lease; a release consumes a lease and gives the reference back; and
`invalidate` takes the leases away and gives back a reference for each.  The reference and the lease
are taken in different sections, between which any other thread may invalidate.
-/
import Nipworker.Lib.Holders
import Nipworker.Lib.Run

namespace Nipworker

namespace LeaseState

/-- A route: the bytes of a `std::string`. -/
abbrev Route := List UInt8

/-- `route.c_str()`, as the engine reads it: up to the first NUL. -/
def cString (route : Route) : Route := route.takeWhile (· ≠ 0)

/-- The host functions that touch references. -/
inductive HostCall
  | subscribe
  | publish
  | registerSubscription
  | registerPublishBuffer
  | retainSubscription
  | retainSubscriptionBuffer
  | releaseSubscription
  deriving DecidableEq, Repr

def HostCall.reserves : HostCall → Bool
  | .subscribe => true
  | .publish => true
  | .registerSubscription => true
  | .registerPublishBuffer => true
  | _ => false

def HostCall.pins : HostCall → Bool
  | .subscribe => true
  | .publish => true
  | .retainSubscriptionBuffer => true
  | _ => false

/-- The route on which the engine takes its reference.  It finds that of a subscription or a
publication in its message, whose id is the route; the others are given to it as C strings. -/
def HostCall.engineRoute (route : Route) : HostCall → Route
  | .subscribe => route
  | .publish => route
  | _ => cString route

/-- Where a host function is. -/
inductive HostPc
  | reserveRoute (call : HostCall) (route : Route)
  | engineCall (call : HostCall) (route : Route)
  | createPinnedBuffer (route : Route)
  | recordLease (route : Route)
  | consumeLease (route : Route)
  | engineRelease (route : Route)
  deriving DecidableEq, Repr

def HostCall.entry (call : HostCall) (route : Route) : HostPc :=
  if call = .releaseSubscription then .consumeLease route
  else if call.reserves then .reserveRoute call route
  else .engineCall call route

/-- Where an invalidation stands: it looks whether the transport is alive, unbinds it, invalidates
the delivery state, swaps the leases out, and releases one reference after the other. -/
inductive InvalidatePc
  | aliveCheck
  | unbind
  | invalidateState
  | swapLeases
  | releasing (rest : List Route)
  | returned
  deriving DecidableEq, Repr

end LeaseState

open LeaseState in
/-- The transport: whether its delivery state is alive, the leases, the references it holds of the
engine, the host function that runs, and the invalidations.  Registrations are left out: what
`reserveRoute` says of a live transport comes with the step. -/
structure LeaseState where
  alive : Bool
  logicalLeases : Holders Route
  references : Route → ℤ
  host : Option HostPc
  invalidations : List InvalidatePc

namespace LeaseState

def start : LeaseState :=
  { alive := true, logicalLeases := Holders.empty, references := fun _ => 0, host := none
    invalidations := [] }

/-- The engine takes a reference on a route, or gives one back. -/
def addReferences (st : LeaseState) (route : Route) (n : ℤ) : LeaseState :=
  { st with references := fun r => st.references r + if route = r then n else 0 }

/-- One section of the host function; `answer` is what the engine says in it, and `reserveRoute`
where there may be no room. -/
def advance (st : LeaseState) (answer : Bool) : HostPc → LeaseState
  | .reserveRoute call route =>
    if route ≠ [] ∧ st.alive ∧ answer then { st with host := some (.engineCall call route) }
    else { st with host := none }
  | .engineCall call route =>
    if answer then
      { st.addReferences (call.engineRoute route) 1 with
        host := some (if call.pins then .createPinnedBuffer route else .recordLease route) }
    else { st with host := none }
  | .createPinnedBuffer route =>
    -- without a buffer the reference is given back
    if st.alive ∧ answer then { st with host := some (.recordLease route) }
    else { st with host := some (.engineRelease route) }
  | .recordLease route =>
    if st.alive then { st with logicalLeases := st.logicalLeases.add route, host := none }
    else { st with host := none }
  | .consumeLease route =>
    if ¬ st.alive then { st with host := none }
    else if st.logicalLeases.count route = 0 then { st with host := none }
    else
      { st with
        logicalLeases := st.logicalLeases.drop route
        host := some (.engineRelease route) }
  | .engineRelease route => { st.addReferences (cString route) (-1) with host := none }

/-- The routes of the leases, each as often as it is leased. -/
def leasedRoutes (leases : Holders Route) : List Route :=
  leases.entries.flatMap fun e => List.replicate e.2 e.1

def invalidateSection (st : LeaseState) : InvalidatePc → LeaseState × InvalidatePc
  | .aliveCheck => (st, if ¬ st.alive then .returned else .unbind)
  | .unbind => (st, .invalidateState)
  | .invalidateState => ({ st with alive := false }, .swapLeases)
  | .swapLeases =>
    ({ st with logicalLeases := Holders.empty }, .releasing (leasedRoutes st.logicalLeases))
  | .releasing (route :: rest) => (st.addReferences (cString route) (-1), .releasing rest)
  | .releasing [] => (st, .returned)
  | .returned => (st, .returned)

/-- What happens: the JS thread enters a host function when it runs none, or does its next section;
a thread invalidates, or one of those that do goes on. -/
inductive Act
  | enter (call : HostCall) (route : Route)
  | host (answer : Bool)
  | invalidate
  | goOn (thread : ℕ)
  deriving DecidableEq, Repr

/-- The thread of the host functions and any number of invalidations, one section at a time. -/
def step (st : LeaseState) : Act → LeaseState
  | .enter call route =>
    match st.host with
    | none => { st with host := some (call.entry route) }
    | some _ => st
  | .host answer =>
    match st.host with
    | none => st
    | some pc => advance st answer pc
  | .invalidate => { st with invalidations := st.invalidations ++ [.aliveCheck] }
  | .goOn thread =>
    match st.invalidations[thread]? with
    | none => st
    | some pc =>
      let (st', pc') := invalidateSection st pc
      { st' with invalidations := st.invalidations.set thread pc' }

/-! ### What is promised -/

/-- No call is in progress. -/
def Quiet (st : LeaseState) : Prop := st.host = none ∧ ∀ pc ∈ st.invalidations, pc = .returned

/-- When no call is in progress, the references are the leases, and there are none once `invalidate`
has returned. -/
def Balanced (st : LeaseState) : Prop :=
  Quiet st →
    (∀ route, st.references route = st.logicalLeases.count route) ∧
      (st.invalidations ≠ [] → ∀ route, st.references route = 0)

/-- The condition on a step: a lease is recorded while the transport is alive, and its route is
released as it is; and the engine takes a reference where it would be released. -/
def Recordable (st : LeaseState) : Act → Prop
  | .host answer =>
    (∀ route, st.host = some (.recordLease route) → st.alive = true ∧ cString route = route) ∧
      (answer = true → ∀ call route, st.host = some (.engineCall call route) →
        call.engineRoute route = cString route)
  | _ => True

end LeaseState

end Nipworker
