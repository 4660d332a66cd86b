/-
Delivery to the native runtime (`react-native/cpp/NipworkerReactNativeTransport.cpp`).

Threads of the engine queue routes and control packets; the runtime is woken to
drain them.  At most one wake is to be under way, so a wake is asked for through
an atomic bit, which is set and cleared outside the lock.
-/
import Nipworker.Lib.Run

namespace Nipworker

/-! ### The state and its calls -/

/-- The limits of the queues. -/
structure DeliveryLimits where
  maxControlPackets : ℕ := 4096
  maxControlBytes : ℕ := 8 * 1024 * 1024
  maxDirtyRoutes : ℕ := 16384
  maxDirtyRouteBytes : ℕ := 2 * 1024 * 1024
  maxRouteBytes : ℕ := 1024

/-- The shared state, over the type of the schedulers.  Counters that are only
reported are left out. -/
structure DeliveryState (σ : Type) where
  generation : ℕ
  limits : DeliveryLimits
  alive : Bool
  wakeScheduled : Bool
  schedule : Option σ
  dirtyRouteOrder : List String
  dirtyRouteSet : Finset String
  dirtyRouteBytes : ℕ
  controlPackets : List (List UInt8)
  queuedControlBytes : ℕ

/-- What a call returns. -/
inductive Returned
  | done
  | taken (accepted : Bool)
  | batch (routes : List String) (controls : List (List UInt8))
  deriving DecidableEq

/-- Where a thread stands: what its call does next.  `requestWake` is the last
thing its callers do; its places keep what the caller returns after it. -/
inductive Pc (σ : Type)
  | returned (r : Returned)
  -- setSchedule
  | setSchedule (schedule : Option σ)
  | scheduleSet
  -- enqueueRoute, enqueueControl
  | routeAccepts (sourceGeneration : ℕ) (route : String)
  | routeLock (route : String)
  | controlAccepts (sourceGeneration : ℕ) (packet : List UInt8)
  | controlLock (packet : List UInt8)
  -- drain
  | drainAlive (generation : ℕ)
  | drainLock
  -- finishWake
  | finishWake (generation : ℕ)
  | finishClear
  | finishAlive
  | finishPending
  -- invalidate
  | invalidate (generation : ℕ)
  | invalidateLock
  -- requestWake
  | wakeAlive (r : Returned)
  | wakeExchange (r : Returned)
  | wakeSchedule (r : Returned)
  | callSchedule (schedule : σ) (r : Returned)
  | wakeClear (r : Returned)
  | wakeRecheck (r : Returned)

variable {σ : Type}

namespace DeliveryState

def hasPending (d : DeliveryState σ) : Bool :=
  !d.dirtyRouteOrder.isEmpty || !d.controlPackets.isEmpty

/-- The lock section of `enqueueRoute`: whether it goes on to `requestWake`, or
what it returns. -/
def queueRoute (d : DeliveryState σ) (route : String) : DeliveryState σ × Pc σ :=
  let routeBytes := route.utf8ByteSize
  if !d.alive then (d, .returned (.taken false))
  else if route ∈ d.dirtyRouteSet then (d, .returned (.taken true))
  else if d.limits.maxRouteBytes < routeBytes ∨ d.limits.maxDirtyRouteBytes < routeBytes ∨
      d.limits.maxDirtyRoutes ≤ d.dirtyRouteOrder.length ∨
      d.limits.maxDirtyRouteBytes - routeBytes < d.dirtyRouteBytes then
    (d, .returned (.taken false))
  else
    ({ d with
        dirtyRouteSet := insert route d.dirtyRouteSet
        dirtyRouteOrder := d.dirtyRouteOrder ++ [route]
        dirtyRouteBytes := d.dirtyRouteBytes + routeBytes },
      .wakeAlive (.taken true))

/-- The lock section of `enqueueControl`. -/
def queueControl (d : DeliveryState σ) (packet : List UInt8) : DeliveryState σ × Pc σ :=
  if !d.alive then (d, .returned (.taken false))
  else if d.limits.maxControlBytes < packet.length ∨ d.limits.maxControlPackets = 0 then
    (d, .returned (.taken false))
  else if d.limits.maxControlPackets ≤ d.controlPackets.length ∨
      d.limits.maxControlBytes - packet.length < d.queuedControlBytes then
    (d, .returned (.taken false))
  else
    ({ d with
        controlPackets := d.controlPackets ++ [packet]
        queuedControlBytes := d.queuedControlBytes + packet.length },
      .wakeAlive (.taken true))

def emptied (d : DeliveryState σ) : DeliveryState σ :=
  { d with
    dirtyRouteOrder := []
    dirtyRouteSet := ∅
    dirtyRouteBytes := 0
    controlPackets := []
    queuedControlBytes := 0 }

/-- One step of a call; `accepted` is the scheduler's answer where the step
calls it, a rejection is an exception. -/
def advance (d : DeliveryState σ) (accepted : Bool) : Pc σ → DeliveryState σ × Pc σ
  | .returned r => (d, .returned r)
  | .setSchedule schedule => ({ d with schedule := schedule }, .scheduleSet)
  | .scheduleSet => (d, if d.hasPending then .wakeAlive .done else .returned .done)
  | .routeAccepts sourceGeneration route =>
    (d, if d.alive ∧ sourceGeneration = d.generation ∧ route ≠ "" then .routeLock route
      else .returned (.taken false))
  | .routeLock route => d.queueRoute route
  | .controlAccepts sourceGeneration packet =>
    (d, if packet ≠ [] ∧ d.alive ∧ sourceGeneration = d.generation then .controlLock packet
      else .returned (.taken false))
  | .controlLock packet => d.queueControl packet
  | .drainAlive generation =>
    (d, if d.alive ∧ generation = d.generation then .drainLock else .returned (.batch [] []))
  | .drainLock => (d.emptied, .returned (.batch d.dirtyRouteOrder d.controlPackets))
  | .finishWake generation =>
    (d, if generation = d.generation then .finishClear else .returned .done)
  | .finishClear => ({ d with wakeScheduled := false }, .finishAlive)
  | .finishAlive => (d, if d.alive then .finishPending else .returned .done)
  | .finishPending => (d, if d.hasPending then .wakeAlive .done else .returned .done)
  | .invalidate generation =>
    if generation = d.generation ∧ d.alive then ({ d with alive := false }, .invalidateLock)
    else (d, .returned .done)
  | .invalidateLock =>
    ({ d.emptied with
        schedule := none
        wakeScheduled := false },
      .returned .done)
  | .wakeAlive r => (d, if d.alive then .wakeExchange r else .returned r)
  | .wakeExchange r =>
    if d.wakeScheduled then (d, .returned r)
    else ({ d with wakeScheduled := true }, .wakeSchedule r)
  | .wakeSchedule r =>
    match d.schedule with
    | none => (d, .wakeClear r)
    | some schedule => (d, .callSchedule schedule r)
  | .callSchedule _ r => (d, if accepted then .returned r else .wakeClear r)
  | .wakeClear r => ({ d with wakeScheduled := false }, .wakeRecheck r)
  | .wakeRecheck r =>
    (d, if d.alive ∧ d.schedule.isSome ∧ d.hasPending then .wakeAlive r else .returned r)

end DeliveryState

/-! ### Threads and wakes -/

/-- The calls of the delivery state. -/
inductive DeliveryCall (σ : Type)
  | setSchedule (schedule : Option σ)
  | enqueueRoute (sourceGeneration : ℕ) (route : String)
  | enqueueControl (sourceGeneration : ℕ) (packet : List UInt8)
  | drain (generation : ℕ)
  | invalidate (generation : ℕ)

def DeliveryCall.entry : DeliveryCall σ → Pc σ
  | .setSchedule schedule => .setSchedule schedule
  | .enqueueRoute sourceGeneration route => .routeAccepts sourceGeneration route
  | .enqueueControl sourceGeneration packet => .controlAccepts sourceGeneration packet
  | .drain generation => .drainAlive generation
  | .invalidate generation => .invalidate generation

def Pc.idle : Pc σ → Bool
  | .returned _ => true
  | _ => false

def Pc.calling : Pc σ → Bool
  | .callSchedule _ _ => true
  | _ => false

def Pc.holding : Pc σ → Bool
  | .wakeSchedule _ | .callSchedule _ _ | .wakeClear _ => true
  | _ => false

/-- The thread finishes a wake whose bit it has not cleared yet. -/
def Pc.finishing : Pc σ → Bool
  | .finishWake _ | .finishClear => true
  | _ => false

/-- The thread will still look for pending packets, or ask for a wake. -/
def Pc.watching : Pc σ → Bool
  | .scheduleSet | .finishAlive | .finishPending | .wakeAlive _ | .wakeExchange _
  | .wakeRecheck _ => true
  | _ => false

def Pc.plain : Pc σ → Bool
  | .wakeExchange _ | .wakeSchedule _ | .callSchedule _ _ | .wakeClear _ | .finishWake _
  | .finishClear | .invalidateLock => false
  | _ => true

/-- The state, the places of the threads, and the accepted wakes: those whose
`finishWake` has not begun, and all that have not cleared the bit. -/
structure DeliverySystem (σ : Type) where
  state : DeliveryState σ
  calls : ℕ → Pc σ
  waiting : ℕ
  outstanding : ℕ
  invalidated : Bool

/-- A thread makes a call, an accepted wake has run and finishes on a thread, or
a thread takes the next step of its call. -/
inductive DeliveryMove (σ : Type)
  | start (t : ℕ) (call : DeliveryCall σ)
  | finish (t : ℕ)
  | run (t : ℕ) (accepted : Bool)

namespace DeliverySystem

def start (generation : ℕ) (limits : DeliveryLimits) : DeliverySystem σ where
  state := {
    generation := generation
    limits := limits
    alive := true
    wakeScheduled := false
    schedule := none
    dirtyRouteOrder := []
    dirtyRouteSet := ∅
    dirtyRouteBytes := 0
    controlPackets := []
    queuedControlBytes := 0 }
  calls := fun _ => .returned .done
  waiting := 0
  outstanding := 0
  invalidated := false

def runThread (s : DeliverySystem σ) (t : ℕ) (accepted : Bool) : DeliverySystem σ :=
  let next := s.state.advance accepted (s.calls t)
  let moved : DeliverySystem σ :=
    { s with
      state := next.1
      calls := Function.update s.calls t next.2 }
  match s.calls t with
  | .callSchedule _ _ =>
    if accepted then
      { moved with
        waiting := s.waiting + 1
        outstanding := s.outstanding + 1 }
    else moved
  | .finishClear => { moved with outstanding := s.outstanding - 1 }
  | .invalidateLock => { moved with invalidated := true }
  | _ => moved

def step (s : DeliverySystem σ) : DeliveryMove σ → DeliverySystem σ
  | .start t call =>
    if (s.calls t).idle then { s with calls := Function.update s.calls t call.entry } else s
  | .finish t =>
    if (s.calls t).idle ∧ 0 < s.waiting then
      { s with
        waiting := s.waiting - 1
        calls := Function.update s.calls t (.finishWake s.state.generation) }
    else s
  | .run t accepted => s.runThread t accepted

/-- No call is in progress. -/
def Quiet (s : DeliverySystem σ) : Prop := ∀ t, (s.calls t).idle = true

/-- At most one wake is under way; when no call is, exactly one for what is
pending on a live state with a scheduler. -/
def Delivering (s : DeliverySystem σ) : Prop :=
  s.outstanding ≤ 1 ∧
    (s.Quiet → s.state.alive = true → s.state.schedule.isSome = true →
      s.state.hasPending = true → s.outstanding = 1)

/-- No thread in `requestWake` takes up a scheduler after `invalidate` has
removed it: none was installed again by then. -/
def NoLateSchedule (s : DeliverySystem σ) : DeliveryMove σ → Prop
  | .run t _ => ∀ r, s.calls t = .wakeSchedule r → s.invalidated = true → s.state.schedule = none
  | _ => True

/-! ### Who holds the wake bit -/

/-- The holder of the wake bit: nobody, a thread in `requestWake`, an accepted
wake, or the thread that finishes it. -/
inductive Holder
  | nobody
  | requester (t : ℕ)
  | scheduled
  | finisher (t : ℕ)
  deriving DecidableEq

def Holder.wakes : Holder → ℕ
  | .scheduled | .finisher _ => 1
  | _ => 0

/-- The threads and the wakes are those of the holder.  Once `invalidate` has
cleared the bit, threads may hold it beside the holder, but none of them calls a
scheduler. -/
structure Held (s : DeliverySystem σ) (h : Holder) : Prop where
  waiting : s.waiting = if h = .scheduled then 1 else 0
  outstanding : s.outstanding = h.wakes
  finishing : ∀ t, (s.calls t).finishing = true ↔ h = .finisher t
  generation : ∀ t g, s.calls t = .finishWake g → g = s.state.generation
  calling : ∀ t, (s.calls t).calling = true → h = .requester t
  holding : s.invalidated = false → ∀ t, (s.calls t).holding = true ↔ h = .requester t
  bit : s.invalidated = false → (s.state.wakeScheduled = true ↔ h ≠ .nobody)

/-- What is pending on a live state with a scheduler is behind a set bit, or a
thread will still look. -/
def Covered (s : DeliverySystem σ) : Prop :=
  s.state.alive = true → s.state.schedule.isSome = true → s.state.hasPending = true →
    s.state.wakeScheduled = true ∨ ∃ t, (s.calls t).watching = true

/-- `invalidate` has ended the state before it clears it. -/
def Ended (s : DeliverySystem σ) : Prop :=
  (s.invalidated = true → s.state.alive = false) ∧
    ∀ t, s.calls t = .invalidateLock → s.state.alive = false

/-- The wake has one holder at most, and what is pending has a wake. -/
structure DeliveryInv (s : DeliverySystem σ) : Prop where
  held : ∃ h, Held s h
  covered : Covered s
  ended : Ended s

variable {s s' : DeliverySystem σ} {h : Holder} {t : ℕ} {pc : Pc σ} {r : Returned}
    (d : DeliveryState σ) (accepted : Bool)

theorem Held.move {h' : Holder} (held : Held s h) (hcalls : s'.calls = Function.update s.calls t pc)
    (hgen : s'.state.generation = s.state.generation)
    (hinv : s'.invalidated = false → s.invalidated = false)
    (hoff : ∀ u, u ≠ t → (h' = .requester u ↔ h = .requester u) ∧
      (h' = .finisher u ↔ h = .finisher u))
    (hwaiting : s'.waiting = if h' = .scheduled then 1 else 0)
    (houtstanding : s'.outstanding = h'.wakes) (hfinishing : pc.finishing = true ↔ h' = .finisher t)
    (hgeneration : ∀ g, pc = .finishWake g → g = s.state.generation)
    (hcalling : pc.calling = true → h' = .requester t)
    (hholding : s'.invalidated = false → (pc.holding = true ↔ h' = .requester t))
    (hbit : s'.invalidated = false → (s'.state.wakeScheduled = true ↔ h' ≠ .nobody)) :
    Held s' h' := by
  -- at `t` the new place counts, at the other threads the old one
  have hat : s'.calls t = pc := by rw [hcalls, Function.update_self]
  have hother : ∀ u, u ≠ t → s'.calls u = s.calls u := fun u hu => by
    rw [hcalls, Function.update_of_ne hu]
  refine ⟨hwaiting, houtstanding, fun u => ?_, fun u g hg => ?_, fun u hu => ?_, fun hi u => ?_,
    hbit⟩
  all_goals by_cases hu' : u = t
  · rw [hu', hat]
    exact hfinishing
  · rw [hother u hu', (hoff u hu').2]
    exact held.finishing u
  · rw [hu', hat] at hg
    rw [hgen]
    exact hgeneration g hg
  · rw [hother u hu'] at hg
    rw [hgen]
    exact held.generation u g hg
  · rw [hu', hat] at hu
    rw [hu']
    exact hcalling hu
  · rw [hother u hu'] at hu
    exact (hoff u hu').1.mpr (held.calling u hu)
  · rw [hu', hat]
    exact hholding hi
  · rw [hother u hu', (hoff u hu').1]
    exact held.holding (hinv hi) u

theorem Held.aside (held : Held s h) (hcalls : s'.calls = Function.update s.calls t pc)
    (hgen : s'.state.generation = s.state.generation)
    (hinv : s'.invalidated = false → s.invalidated = false)
    (hwaiting : s'.waiting = s.waiting) (houtstanding : s'.outstanding = s.outstanding)
    (hbit : s'.invalidated = false → s'.state.wakeScheduled = s.state.wakeScheduled)
    (hfinishing : pc.finishing = (s.calls t).finishing)
    (hgeneration : ∀ g, pc = .finishWake g → g = s.state.generation)
    (hcalling : pc.calling = true → h = .requester t)
    (hholding : s'.invalidated = false → pc.holding = (s.calls t).holding) : Held s' h := by
  refine held.move hcalls hgen hinv (fun u _ => ⟨Iff.rfl, Iff.rfl⟩) ?_ ?_ ?_ hgeneration hcalling
    (fun hi => ?_) fun hi => ?_
  · rw [hwaiting, held.waiting]
  · rw [houtstanding, held.outstanding]
  · rw [hfinishing]
    exact held.finishing t
  · rw [hholding hi]
    exact held.holding (hinv hi) t
  · rw [hbit hi]
    exact held.bit (hinv hi)

theorem Covered.move (covered : Covered s) (hcalls : s'.calls = Function.update s.calls t pc)
    (hkeep : s'.state.alive = true → s'.state.schedule.isSome = true →
      s'.state.hasPending = true →
        s'.state.wakeScheduled = true ∨ pc.watching = true ∨
          (s.state.alive = true ∧ s.state.schedule.isSome = true ∧ s.state.hasPending = true ∧
            (s.state.wakeScheduled = true → s'.state.wakeScheduled = true) ∧
            (s.calls t).watching = false)) : Covered s' := by
  intro halive hschedule hpending
  have hat : s'.calls t = pc := by rw [hcalls, Function.update_self]
  obtain hbit | hwatch | ⟨h1, h2, h3, hbit, hno⟩ := hkeep halive hschedule hpending
  · exact .inl hbit
  · exact .inr ⟨t, by rw [hat]; exact hwatch⟩
  · obtain hset | ⟨u, hu⟩ := covered h1 h2 h3
    · exact .inl (hbit hset)
    · -- a watching thread is another one, and still watches
      have hne : u ≠ t := by
        rintro rfl
        rw [hno] at hu
        exact Bool.false_ne_true hu
      exact .inr ⟨u, by rw [hcalls, Function.update_of_ne hne]; exact hu⟩

/-! ### One step -/

theorem plain_roles (hpc : pc.plain = true) :
    pc.finishing = false ∧ pc.holding = false ∧ pc.calling = false ∧ pc ≠ .finishClear ∧
      pc ≠ .invalidateLock := by
  cases pc with
  | wakeExchange | wakeSchedule | callSchedule | wakeClear | finishWake | finishClear
  | invalidateLock => exact absurd hpc Bool.false_ne_true
  | _ => exact ⟨rfl, rfl, rfl, nofun, nofun⟩

theorem advance_plain (hpc : pc.plain = true) :
    (d.advance accepted pc).2.finishing = false ∧ (d.advance accepted pc).2.calling = false ∧
      (d.advance accepted pc).2.holding = false ∧
      (d.advance accepted pc).1.generation = d.generation ∧
      (d.advance accepted pc).1.wakeScheduled = d.wakeScheduled := by
  cases pc with
  | routeLock route =>
    simp only [DeliveryState.advance, DeliveryState.queueRoute]
    split_ifs <;> exact ⟨rfl, rfl, rfl, rfl, rfl⟩
  | controlLock packet =>
    simp only [DeliveryState.advance, DeliveryState.queueControl]
    split_ifs <;> exact ⟨rfl, rfl, rfl, rfl, rfl⟩
  | wakeExchange | wakeSchedule | callSchedule | wakeClear | finishWake | finishClear
  | invalidateLock => exact absurd hpc Bool.false_ne_true
  | _ =>
    dsimp only [DeliveryState.advance]
    try split_ifs
    all_goals exact ⟨rfl, rfl, rfl, rfl, rfl⟩

def moved (s : DeliverySystem σ) (t : ℕ) (d : DeliveryState σ) (pc : Pc σ) : DeliverySystem σ :=
  { s with
    state := d
    calls := Function.update s.calls t pc }

theorem runThread_eq {accepted : Bool} {pc' : Pc σ}
    {d : DeliveryState σ} (hpc : s.calls t = pc) (hadv : s.state.advance accepted pc = (d, pc'))
    (hcall : pc.calling = false) (hclear : pc ≠ .finishClear) (hlock : pc ≠ .invalidateLock) :
    s.runThread t accepted = s.moved t d pc' := by
  unfold runThread moved
  rw [hpc, hadv]
  cases pc with
  | callSchedule => exact absurd hcall.symm Bool.false_ne_true
  | finishClear => exact absurd rfl hclear
  | invalidateLock => exact absurd rfl hlock
  | _ => rfl

theorem held_plain (held : Held s h)
    (hpc : (s.calls t).plain = true) : Held (s.runThread t accepted) h := by
  obtain ⟨hf, hc, hh, hgen, hbit⟩ := advance_plain s.state accepted hpc
  obtain ⟨hf', hh', hcall', hclear', hlock'⟩ := plain_roles hpc
  rw [runThread_eq rfl Prod.mk.eta.symm hcall' hclear' hlock']
  refine held.aside rfl hgen id rfl rfl (fun _ => hbit) (hf.trans hf'.symm) (fun g hg => ?_)
    (fun hcall => ?_) fun _ => hh.trans hh'.symm
  · rw [hg] at hf
    exact absurd hf.symm Bool.false_ne_true
  · rw [hc] at hcall
    exact absurd hcall Bool.false_ne_true

theorem held_wakeExchange (held : Held s h) (hpc : s.calls t = .wakeExchange r) :
    ∃ h', Held (s.runThread t accepted) h' := by
  by_cases hbit : s.state.wakeScheduled = true
  · have hadv : s.state.advance accepted (.wakeExchange r) = (s.state, .returned r) := if_pos hbit
    rw [runThread_eq hpc hadv rfl nofun nofun]
    refine ⟨h, held.aside rfl rfl id rfl rfl (fun _ => rfl) ?_ nofun nofun fun _ => ?_⟩
    all_goals rw [hpc]; rfl
  have hadv : s.state.advance accepted (.wakeExchange r) =
      ({ s.state with wakeScheduled := true }, .wakeSchedule r) := if_neg hbit
  rw [runThread_eq hpc hadv rfl nofun nofun]
  by_cases hi : s.invalidated = true
  · -- the bit is not accounted for any more
    have hoff : s.invalidated ≠ false := by simp [hi]
    refine ⟨h, held.aside rfl rfl id rfl rfl (fun h0 => absurd h0 hoff) ?_ nofun nofun
      fun h0 => absurd h0 hoff⟩
    rw [hpc]; rfl
  · have hi0 : s.invalidated = false := by simpa using hi
    obtain rfl : h = .nobody := by
      by_contra hne
      exact hbit ((held.bit hi0).mpr hne)
    refine ⟨.requester t, held.move rfl rfl id (fun u hu => ?_) held.waiting held.outstanding ?_
      nofun nofun (fun _ => ?_) fun _ => ?_⟩
    · simp [hu.symm]
    · exact iff_of_false Bool.false_ne_true nofun
    · exact iff_of_true rfl rfl
    · exact iff_of_true rfl nofun

theorem held_wakeSchedule (held : Held s h) (hpc : s.calls t = .wakeSchedule r)
    (hlate : s.invalidated = true → s.state.schedule = none) : Held (s.runThread t accepted) h := by
  match hs : s.state.schedule with
  | none =>
    have hadv : s.state.advance accepted (.wakeSchedule r) = (s.state, .wakeClear r) := by
      simp only [DeliveryState.advance, hs]
    rw [runThread_eq hpc hadv rfl nofun nofun]
    refine held.aside rfl rfl id rfl rfl (fun _ => rfl) ?_ nofun nofun fun _ => ?_
    all_goals rw [hpc]; rfl
  | some schedule =>
    have hadv : s.state.advance accepted (.wakeSchedule r) =
        (s.state, .callSchedule schedule r) := by
      simp only [DeliveryState.advance, hs]
    have hi0 : s.invalidated = false := by
      by_contra hi
      have hnone := hlate (by simpa using hi)
      rw [hs] at hnone
      exact Option.some_ne_none _ hnone
    rw [runThread_eq hpc hadv rfl nofun nofun]
    refine held.aside rfl rfl id rfl rfl (fun _ => rfl) ?_ nofun (fun _ => ?_) fun _ => ?_
    · rw [hpc]; rfl
    · exact (held.holding hi0 t).mp (by rw [hpc]; rfl)
    · rw [hpc]; rfl

theorem held_callSchedule {schedule : σ} (held : Held s h)
    (hpc : s.calls t = .callSchedule schedule r) : ∃ h', Held (s.runThread t accepted) h' := by
  obtain rfl : h = .requester t := held.calling t (by rw [hpc]; rfl)
  unfold runThread
  rw [hpc]
  match accepted with
  | true =>
    refine ⟨.scheduled, held.move rfl rfl id (fun u hu => ?_) ?_ ?_ ?_ nofun nofun (fun _ => ?_)
      fun hi => ?_⟩
    · simp [hu.symm]
    · show s.waiting + 1 = 1
      rw [held.waiting]; rfl
    · show s.outstanding + 1 = 1
      rw [held.outstanding]; rfl
    · exact iff_of_false Bool.false_ne_true nofun
    · exact iff_of_false Bool.false_ne_true nofun
    · exact iff_of_true ((held.bit hi).mpr nofun) nofun
  | false =>
    refine ⟨.requester t, held.aside rfl rfl id rfl rfl (fun _ => rfl) ?_ nofun nofun fun _ => ?_⟩
    all_goals rw [hpc]; rfl

theorem held_wakeClear (held : Held s h) (hpc : s.calls t = .wakeClear r) :
    ∃ h', Held (s.runThread t accepted) h' := by
  rw [runThread_eq hpc rfl rfl nofun nofun]
  by_cases hi : s.invalidated = true
  · have hoff : s.invalidated ≠ false := by simp [hi]
    refine ⟨h, held.aside rfl rfl id rfl rfl (fun h0 => absurd h0 hoff) ?_ nofun nofun
      fun h0 => absurd h0 hoff⟩
    rw [hpc]; rfl
  · have hi0 : s.invalidated = false := by simpa using hi
    obtain rfl : h = .requester t := (held.holding hi0 t).mp (by rw [hpc]; rfl)
    refine ⟨.nobody, held.move rfl rfl id (fun u hu => ?_) held.waiting held.outstanding ?_
      nofun nofun (fun _ => ?_) fun _ => ?_⟩
    · simp [hu.symm]
    · exact iff_of_false Bool.false_ne_true nofun
    · exact iff_of_false Bool.false_ne_true nofun
    · exact iff_of_false Bool.false_ne_true (fun hne => hne rfl)

theorem held_finishClear (held : Held s h) (hpc : s.calls t = .finishClear) :
    Held (s.runThread t accepted) .nobody := by
  obtain rfl : h = .finisher t := (held.finishing t).mp (by rw [hpc]; rfl)
  unfold runThread
  rw [hpc]
  refine held.move rfl rfl id (fun u hu => ?_) held.waiting ?_ ?_ nofun nofun (fun _ => ?_)
    fun _ => ?_
  · simp [hu.symm]
  · show s.outstanding - 1 = 0
    rw [held.outstanding]; rfl
  · exact iff_of_false Bool.false_ne_true nofun
  · exact iff_of_false Bool.false_ne_true nofun
  · exact iff_of_false Bool.false_ne_true (fun hne => hne rfl)

theorem held_finishWake {g : ℕ}
    (held : Held s h) (hpc : s.calls t = .finishWake g) : Held (s.runThread t accepted) h := by
  have hadv : s.state.advance accepted (.finishWake g) = (s.state, .finishClear) := by
    simp only [DeliveryState.advance, if_pos (held.generation t g hpc)]
  rw [runThread_eq hpc hadv rfl nofun nofun]
  refine held.aside rfl rfl id rfl rfl (fun _ => rfl) ?_ nofun nofun fun _ => ?_
  all_goals rw [hpc]; rfl

theorem held_invalidateLock
    (held : Held s h) (hpc : s.calls t = .invalidateLock) : Held (s.runThread t accepted) h := by
  unfold runThread
  rw [hpc]
  refine held.aside rfl rfl nofun rfl rfl nofun ?_ nofun nofun nofun
  rw [hpc]; rfl

theorem held_run {accepted : Bool} (held : Held s h)
    (hlate : s.NoLateSchedule (.run t accepted)) : ∃ h', Held (s.runThread t accepted) h' := by
  cases hpc : s.calls t with
  | wakeExchange r => exact held_wakeExchange accepted held hpc
  | wakeSchedule r => exact ⟨h, held_wakeSchedule accepted held hpc (hlate r hpc)⟩
  | callSchedule schedule r => exact held_callSchedule accepted held hpc
  | wakeClear r => exact held_wakeClear accepted held hpc
  | finishWake g => exact ⟨h, held_finishWake accepted held hpc⟩
  | finishClear => exact ⟨.nobody, held_finishClear accepted held hpc⟩
  | invalidateLock => exact ⟨h, held_invalidateLock accepted held hpc⟩
  | _ => exact ⟨h, held_plain accepted held (by rw [hpc]; rfl)⟩

theorem runThread_state (s : DeliverySystem σ) (t : ℕ) (accepted : Bool) :
    (s.runThread t accepted).state = (s.state.advance accepted (s.calls t)).1 := by
  unfold runThread
  split <;> try rfl
  split_ifs <;> rfl

theorem runThread_calls (s : DeliverySystem σ) (t : ℕ) (accepted : Bool) :
    (s.runThread t accepted).calls =
      Function.update s.calls t (s.state.advance accepted (s.calls t)).2 := by
  unfold runThread
  split <;> try rfl
  split_ifs <;> rfl

/-- Every step that clears the bit, adds a packet or installs a scheduler goes
on to look for what is pending, and a look that ends finds nothing to do. -/
theorem advance_covers (pc : Pc σ) :
    (d.advance accepted pc).1.alive = true → (d.advance accepted pc).1.schedule.isSome = true →
      (d.advance accepted pc).1.hasPending = true →
        (d.advance accepted pc).1.wakeScheduled = true ∨
          (d.advance accepted pc).2.watching = true ∨
          (d.alive = true ∧ d.schedule.isSome = true ∧ d.hasPending = true ∧
            (d.wakeScheduled = true → (d.advance accepted pc).1.wakeScheduled = true) ∧
            pc.watching = false) := by
  cases pc with
  | routeLock route =>
    simp only [DeliveryState.advance, DeliveryState.queueRoute]
    split_ifs with h1 h2 h3
    · exact fun ha hs hp => .inr (.inr ⟨ha, hs, hp, id, rfl⟩)
    · exact fun ha hs hp => .inr (.inr ⟨ha, hs, hp, id, rfl⟩)
    · exact fun ha hs hp => .inr (.inr ⟨ha, hs, hp, id, rfl⟩)
    · exact fun _ _ _ => .inr (.inl rfl)
  | controlLock packet =>
    simp only [DeliveryState.advance, DeliveryState.queueControl]
    split_ifs with h1 h2 h3
    · exact fun ha hs hp => .inr (.inr ⟨ha, hs, hp, id, rfl⟩)
    · exact fun ha hs hp => .inr (.inr ⟨ha, hs, hp, id, rfl⟩)
    · exact fun ha hs hp => .inr (.inr ⟨ha, hs, hp, id, rfl⟩)
    · exact fun _ _ _ => .inr (.inl rfl)
  | scheduleSet | finishPending =>
    intro ha hs hp
    refine .inr (.inl ?_)
    simp only [DeliveryState.advance] at hp ⊢
    rw [if_pos hp]
    rfl
  | finishAlive | wakeAlive =>
    intro ha hs hp
    refine .inr (.inl ?_)
    simp only [DeliveryState.advance] at ha ⊢
    rw [if_pos ha]
    rfl
  | wakeRecheck r =>
    intro ha hs hp
    refine .inr (.inl ?_)
    simp only [DeliveryState.advance] at ha hs hp ⊢
    rw [if_pos ⟨ha, hs, hp⟩]
    rfl
  | wakeExchange r =>
    intro _ _ _
    refine .inl ?_
    simp only [DeliveryState.advance]
    split_ifs with hbit
    · exact hbit
    · rfl
  | setSchedule | wakeClear | finishClear => exact fun _ _ _ => .inr (.inl rfl)
  | drainLock | invalidateLock => exact fun _ _ hp => absurd hp Bool.false_ne_true
  | invalidate g =>
    dsimp only [DeliveryState.advance]
    split_ifs with h
    · exact nofun
    · exact fun ha hs hp => .inr (.inr ⟨ha, hs, hp, id, rfl⟩)
  | wakeSchedule r =>
    simp only [DeliveryState.advance]
    split
    all_goals exact fun ha hs hp => .inr (.inr ⟨ha, hs, hp, id, rfl⟩)
  | _ => exact fun ha hs hp => .inr (.inr ⟨ha, hs, hp, id, rfl⟩)

theorem advance_alive (pc : Pc σ) :
    (d.alive = false → (d.advance accepted pc).1.alive = false) ∧
      ((d.advance accepted pc).2 = .invalidateLock → (d.advance accepted pc).1.alive = false) := by
  cases pc with
  | routeLock route =>
    simp only [DeliveryState.advance, DeliveryState.queueRoute]
    split_ifs <;> exact ⟨id, nofun⟩
  | controlLock packet =>
    simp only [DeliveryState.advance, DeliveryState.queueControl]
    split_ifs <;> exact ⟨id, nofun⟩
  | invalidate g =>
    simp only [DeliveryState.advance]
    split_ifs
    · exact ⟨fun _ => rfl, fun _ => rfl⟩
    · exact ⟨id, nofun⟩
  | wakeSchedule r =>
    simp only [DeliveryState.advance]
    split <;> exact ⟨id, nofun⟩
  | _ =>
    dsimp only [DeliveryState.advance]
    try split_ifs
    all_goals exact ⟨id, nofun⟩

theorem ended_run (ended : Ended s) : Ended (s.runThread t accepted) := by
  obtain ⟨hkeep, hlock⟩ := advance_alive s.state accepted (s.calls t)
  refine ⟨fun hi => ?_, fun u hu => ?_⟩
  · rw [runThread_state]
    by_cases hpc : s.calls t = .invalidateLock
    · exact hkeep (ended.2 t hpc)
    · -- another step leaves the mark as it was
      refine hkeep (ended.1 ?_)
      unfold runThread at hi
      generalize s.calls t = pc at hi hpc
      cases pc with
      | invalidateLock => exact absurd rfl hpc
      | callSchedule =>
        match accepted with
        | true => exact hi
        | false => exact hi
      | _ => exact hi
  · rw [runThread_state]
    rw [runThread_calls] at hu
    by_cases hut : u = t
    · rw [hut, Function.update_self] at hu
      exact hlock hu
    · rw [Function.update_of_ne hut] at hu
      exact hkeep (ended.2 u hu)

/-! ### Whole runs -/

theorem inv_start (generation : ℕ) (limits : DeliveryLimits) :
    DeliveryInv (start generation limits : DeliverySystem σ) where
  held := ⟨.nobody, rfl, rfl, fun _ => iff_of_false Bool.false_ne_true nofun, nofun, nofun,
    fun _ _ => iff_of_false Bool.false_ne_true nofun,
    fun _ => iff_of_false Bool.false_ne_true fun hne => hne rfl⟩
  covered := fun _ _ hpending => absurd hpending Bool.false_ne_true
  ended := ⟨nofun, nofun⟩

theorem entry_roles (call : DeliveryCall σ) :
    call.entry.finishing = false ∧ call.entry.calling = false ∧ call.entry.holding = false ∧
      call.entry.watching = false ∧ call.entry ≠ .invalidateLock := by
  cases call <;> exact ⟨rfl, rfl, rfl, rfl, nofun⟩

theorem idle_roles (h : pc.idle = true) :
    pc.finishing = false ∧ pc.holding = false ∧ pc.watching = false := by
  cases pc with
  | returned r => exact ⟨rfl, rfl, rfl⟩
  | _ => exact absurd h Bool.false_ne_true

theorem inv_begin (call : DeliveryCall σ) (inv : DeliveryInv s) (hidle : (s.calls t).idle = true) :
    DeliveryInv { s with calls := Function.update s.calls t call.entry } := by
  obtain ⟨⟨h, held⟩, covered, ended⟩ := inv
  obtain ⟨hf, hc, hh, -, hlock⟩ := entry_roles call
  obtain ⟨hf', hh', hw'⟩ := idle_roles hidle
  refine ⟨⟨h, held.aside rfl rfl id rfl rfl (fun _ => rfl) (hf.trans hf'.symm) (fun g hg => ?_)
    (fun hcall => ?_) fun _ => hh.trans hh'.symm⟩, covered.move rfl fun ha hs hp => ?_,
    ended.1, fun u hu => ?_⟩
  · rw [hg] at hf
    exact absurd hf.symm Bool.false_ne_true
  · rw [hc] at hcall
    exact absurd hcall Bool.false_ne_true
  · exact .inr (.inr ⟨ha, hs, hp, id, hw'⟩)
  · by_cases hut : u = t
    · rw [hut] at hu
      exact absurd ((Function.update_self t call.entry s.calls).symm.trans hu) hlock
    · exact ended.2 u ((Function.update_of_ne hut call.entry s.calls).symm.trans hu)

theorem inv_finish (inv : DeliveryInv s) (hidle : (s.calls t).idle = true) (hw : 0 < s.waiting) :
    DeliveryInv { s with
      waiting := s.waiting - 1
      calls := Function.update s.calls t (.finishWake s.state.generation) } := by
  obtain ⟨⟨h, held⟩, covered, ended⟩ := inv
  obtain ⟨-, -, hw'⟩ := idle_roles hidle
  obtain rfl : h = .scheduled := by
    by_contra hne
    have h0 := held.waiting
    rw [if_neg hne] at h0
    omega
  refine ⟨⟨.finisher t, held.move rfl rfl id (fun u hu => ?_) ?_ held.outstanding ?_ ?_ nofun
    (fun _ => ?_) fun hi => ?_⟩, covered.move rfl fun ha hs hp => ?_, ended.1, fun u hu => ?_⟩
  · simp [hu.symm]
  · show s.waiting - 1 = 0
    rw [held.waiting]; rfl
  · exact iff_of_true rfl rfl
  · rintro g hg
    exact (Pc.finishWake.inj hg).symm
  · exact iff_of_false Bool.false_ne_true nofun
  · exact iff_of_true ((held.bit hi).mpr nofun) nofun
  · exact .inr (.inr ⟨ha, hs, hp, id, hw'⟩)
  · by_cases hut : u = t
    · rw [hut] at hu
      exact nomatch (Function.update_self t _ s.calls).symm.trans hu
    · exact ended.2 u ((Function.update_of_ne hut _ s.calls).symm.trans hu)

theorem inv_step {m : DeliveryMove σ} (inv : DeliveryInv s)
    (hlate : s.NoLateSchedule m) : DeliveryInv (s.step m) := by
  cases m with
  | start t call =>
    rw [step]
    by_cases hidle : (s.calls t).idle = true
    · rw [if_pos hidle]
      exact inv_begin call inv hidle
    · rw [if_neg hidle]
      exact inv
  | finish t =>
    rw [step]
    by_cases hc : (s.calls t).idle = true ∧ 0 < s.waiting
    · rw [if_pos hc]
      exact inv_finish inv hc.1 hc.2
    · rw [if_neg hc]
      exact inv
  | run t accepted =>
    obtain ⟨⟨h, held⟩, covered, ended⟩ := inv
    rw [step]
    refine ⟨held_run held hlate, covered.move (runThread_calls s t accepted) ?_,
      ended_run accepted ended⟩
    rw [runThread_state]
    exact advance_covers s.state accepted (s.calls t)

theorem Held.outstanding_le (held : Held s h) : s.outstanding ≤ 1 := by
  rw [held.outstanding]
  cases h with
  | scheduled | finisher => exact le_rfl
  | nobody | requester => exact Nat.zero_le 1

theorem DeliveryInv.delivering (inv : DeliveryInv s) : s.Delivering := by
  obtain ⟨⟨h, held⟩, covered, ended⟩ := inv
  refine ⟨held.outstanding_le, fun hquiet halive hschedule hpending => ?_⟩
  have hi : s.invalidated = false := by
    by_contra hi
    have hdead := ended.1 (by simpa using hi)
    rw [halive] at hdead
    exact Bool.false_ne_true hdead.symm
  -- no thread is left to look, so the bit is set
  have hbit : s.state.wakeScheduled = true := by
    refine (covered halive hschedule hpending).resolve_right ?_
    rintro ⟨t, ht⟩
    rw [(idle_roles (hquiet t)).2.2] at ht
    exact Bool.false_ne_true ht
  -- no thread is left to hold it, so a wake does
  rw [held.outstanding]
  cases h with
  | scheduled => rfl
  | finisher t => rfl
  | nobody => exact absurd rfl ((held.bit hi).mp hbit)
  | requester t =>
    have hhold := (held.holding hi t).mpr rfl
    rw [(idle_roles (hquiet t)).2.1] at hhold
    exact absurd hhold Bool.false_ne_true

/-- **No stranded delivery**: after every run of any number of threads in which
no thread takes up a scheduler that was installed after `invalidate`, at most one
accepted wake is under way, and exactly one when no call is in progress and a
live state with a scheduler has something pending. -/
theorem no_stranded_delivery (generation : ℕ) (limits : DeliveryLimits)
    (moves : List (DeliveryMove σ))
    (hlate : Run.Along step NoLateSchedule (start generation limits) moves) :
    (Run.exec step (start generation limits) moves).Delivering :=
  (Run.Along.exec (fun _ _ => inv_step) (inv_start generation limits) hlate).delivering

theorem noLateSchedule_of_alive (m : DeliveryMove σ)
    (hi : s.invalidated = false) : s.NoLateSchedule m := by
  cases m with
  | run t accepted => exact fun _ _ hi' => absurd (hi.symm.trans hi') Bool.false_ne_true
  | _ => trivial

/-- A thread makes a call and takes its steps, `accepted` being what the
scheduler says. -/
def callOf (t : ℕ) (call : DeliveryCall σ) (steps : ℕ) (accepted : Bool) :
    List (DeliveryMove σ) :=
  .start t call :: List.replicate steps (.run t accepted)

/-- A route is queued before there is a scheduler; the scheduler installed by
another thread throws once, then accepts. -/
def rejectedOnce : List (DeliveryMove Unit) :=
  callOf 0 (.enqueueRoute 7 "feed") 7 true ++ callOf 1 (.setSchedule (some ())) 5 true ++
    [.run 1 false] ++ List.replicate 7 (.run 1 true)

theorem no_stranded_delivery_rejectedOnce :
    Run.Along step NoLateSchedule (start 7 {} : DeliverySystem Unit) rejectedOnce ∧
      (Run.exec step (start 7 {}) rejectedOnce).Delivering ∧
      (Run.exec step (start 7 {}) rejectedOnce).outstanding = 1 := by
  have halive : Run.Along step (fun s _ => s.invalidated = false)
      (start 7 {} : DeliverySystem Unit) rejectedOnce := by decide +kernel
  have hlate : Run.Along step NoLateSchedule (start 7 {} : DeliverySystem Unit) rejectedOnce :=
    halive.mono fun _ m hi => noLateSchedule_of_alive m hi
  exact ⟨hlate, no_stranded_delivery 7 {} rejectedOnce hlate, rfl⟩

/-- Thread 1 has found the state alive when `invalidate` clears the wake bit of
the wake that thread 0 got accepted; a scheduler is installed again. -/
def lateScheduler : List (DeliveryMove Unit) :=
  callOf 0 (.setSchedule (some ())) 2 true ++ callOf 0 (.enqueueRoute 7 "a") 6 true ++
    callOf 1 (.enqueueRoute 7 "b") 3 true ++ callOf 2 (.invalidate 7) 2 true ++
    callOf 3 (.setSchedule (some ())) 2 true ++ List.replicate 3 (.run 1 true)

/-- **Two wakes**: the second is accepted while the first is under way. -/
theorem late_scheduler_wakes_twice :
    (Run.exec step (start 7 {}) lateScheduler).outstanding = 2 ∧
      ¬ (Run.exec step (start 7 {}) lateScheduler).Delivering := by
  have htwo : (Run.exec step (start 7 {}) lateScheduler).outstanding = 2 := by decide +kernel
  exact ⟨htwo, fun h => absurd h.1 (by omega)⟩

end DeliverySystem

end Nipworker
