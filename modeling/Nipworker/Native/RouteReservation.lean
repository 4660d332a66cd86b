/-
Routes registered for delivery (`react-native/cpp/NipworkerReactNativeJSI.cpp`).

A route is registered if the registered routes and it are within the limits of the queue of dirty
routes, so that it should have room there when the engine emits it.  The host functions register a
route, let the engine take it up, and give it back or record a lease; a cleanup takes back the
routes without a lease, but not the wakes that still wait for them.
-/
import Nipworker.Lib.Map
import Nipworker.Native.DeliveryQueues

namespace Nipworker

open Delivery (Route Queues Limits overBudget)

/-- `RuntimeTransport`, as far as it is about routes: the queues, whose limits are its own, the
registered routes with the sum of their bytes, the leases, and the call that has registered its
route and not ended, with whether it inserted it. -/
structure RouteTransport (w : ℕ) where
  queues : Queues w
  registeredRoutes : List (Route w)
  registeredRouteBytes : BitVec w
  logicalLeases : Map (Route w) ℕ
  calling : Option (Route w × Bool)

namespace RouteTransport

variable {w : ℕ}

def start (generation : ℕ) (limits : Limits w) : RouteTransport w :=
  { queues := Queues.start generation limits, registeredRoutes := [], registeredRouteBytes := 0
    logicalLeases := ∅, calling := none }

def admits (st : RouteTransport w) (route : Route w) : Bool :=
  !(overBudget st.queues.limits st.registeredRoutes.length st.registeredRouteBytes route.size).1

/-- Whether the route is registered, and whether it was inserted. -/
def reserveRoute (st : RouteTransport w) (route : Route w) : (Bool × Bool) × RouteTransport w :=
  if route.bytes = [] then ((false, false), st)
  else if ¬ st.queues.alive then ((false, false), st)
  else if route ∈ st.registeredRoutes then ((true, false), st)
  else if ¬ st.admits route then ((false, false), st)
  else
    ((true, true), { st with
      registeredRoutes := st.registeredRoutes ++ [route]
      registeredRouteBytes := st.registeredRouteBytes + route.size })

def rollbackRoute (st : RouteTransport w) (route : Route w) (inserted : Bool) : RouteTransport w :=
  if ¬ inserted then st
  else if route ∈ st.registeredRoutes then
    { st with
      registeredRoutes := st.registeredRoutes.erase route
      registeredRouteBytes := st.registeredRouteBytes - route.size }
  else st

def recordLease (st : RouteTransport w) (route : Route w) : RouteTransport w :=
  if st.queues.alive then
    { st with
      logicalLeases := AList.insert route ((st.logicalLeases.lookup route).getD 0 + 1)
        st.logicalLeases }
  else st

/-- `consumeLease`; the release of the engine that follows does not change the transport. -/
def consumeLease (st : RouteTransport w) (route : Route w) : RouteTransport w :=
  if ¬ st.queues.alive then st
  else
    match st.logicalLeases.lookup route with
    | some (n + 1) =>
      if n = 0 then { st with logicalLeases := AList.erase route st.logicalLeases }
      else { st with logicalLeases := AList.insert route n st.logicalLeases }
    | _ => st

/-- `cleanupSubscriptions`, after the cleanup of the engine: one route after the other, those
without a lease are erased. -/
def cleanup (st : RouteTransport w) : RouteTransport w :=
  st.registeredRoutes.foldl (fun st route =>
    if st.logicalLeases.lookup route = none then
      { st with
        registeredRoutes := st.registeredRoutes.erase route
        registeredRouteBytes := st.registeredRouteBytes - route.size }
    else st) st

inductive HostCall
  | subscribe
  | publish
  | registerSubscription
  | registerPublishBuffer
  deriving DecidableEq, Repr

/-- What happens: one of these functions registers its route; it ends, the engine having taken up
the route, with a buffer where one is asked for, or not; a lease is added or given back; the routes
are cleaned up; the engine emits a route; the queues are drained. -/
inductive Act (w : ℕ)
  | enter (call : HostCall) (route : Route w)
  | leave (taken : Bool)
  | retainSubscription (route : Route w)
  | releaseSubscription (route : Route w)
  | cleanupSubscriptions
  | emit (route : Route w)
  | drainPending

/-- The engine emits a route: `acceptEnginePacket`. -/
def emit (st : RouteTransport w) (route : Route w) : RouteTransport w :=
  { st with queues := Queues.step st.queues (.enqueueRoute st.queues.generation route) }

/-- One step.  The host functions run on one thread, one after the other, and the engine emits
registered routes only. -/
def step (st : RouteTransport w) : Act w → RouteTransport w
  | .enter _ route =>
    match st.calling with
    | some _ => st
    | none =>
      match reserveRoute st route with
      | ((true, inserted), st) => { st with calling := some (route, inserted) }
      | ((false, _), st) => st
  | .leave taken =>
    match st.calling with
    | none => st
    | some (route, inserted) =>
      let st := { st with calling := none }
      if taken then recordLease st route else rollbackRoute st route inserted
  | .retainSubscription route => recordLease st route
  | .releaseSubscription route => consumeLease st route
  | .cleanupSubscriptions => cleanup st
  | .emit route => if route ∈ st.registeredRoutes then emit st route else st
  | .drainPending =>
    { st with queues := Queues.step st.queues (.drain st.queues.generation) }

/-! ### What is promised -/

/-- The routes stay within the limits. -/
def Fits (limits : Limits w) (routes : Finset (Route w)) : Prop :=
  routes.card ≤ limits.maxDirtyRoutes.toNat ∧
    ∑ r ∈ routes, r.bytes.length ≤ limits.maxDirtyRouteBytes.toNat

def occupied (st : RouteTransport w) : Finset (Route w) :=
  st.registeredRoutes.toFinset ∪ st.queues.dirtyRouteSet

/-- No route has been refused, and none will be, whichever registered routes the engine emits. -/
def Guaranteed (st : RouteTransport w) : Prop :=
  ∀ routes : List (Route w), (∀ r ∈ routes, r ∈ st.registeredRoutes) →
    (routes.foldl emit st).queues.stats.droppedRoutes = 0

/-- The condition on a step: a route that is newly registered has room next to all routes that are
registered or dirty. -/
def RoomLeft (st : RouteTransport w) : Act w → Prop
  | .enter _ route =>
    st.calling = none → route.bytes ≠ [] → st.queues.alive = true →
      route ∉ st.registeredRoutes → st.admits route = true →
        Fits st.queues.limits (insert route st.occupied)
  | _ => True

end RouteTransport

end Nipworker
