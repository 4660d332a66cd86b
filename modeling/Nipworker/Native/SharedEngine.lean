/-
The process-wide engine and its clients.

Four entry points share one registry: a client acquires and releases a reference, and
the process sets and clears an anchor.  A lifecycle lock keeps other calls out while one
of them creates an engine or waits for callbacks to come back; callbacks of the engine
run at any time.
-/
import Nipworker.Lib.Holders
import Nipworker.Lib.History
import Nipworker.Lib.Run

namespace Nipworker

open List
namespace SharedEngine

/-- A delivery client: its callback and its user data, as addresses. -/
structure Client where
  callback : ℕ
  userdata : ℕ
deriving DecidableEq

/-- `SharedEngineState`; the handle 0 means that there is no engine. -/
structure SharedEngineState where
  handle : ℕ
  generation : ℕ
  processAnchored : Bool
  clients : Holders Client
  callbacksInFlight : ℕ

/-- Where the holder of the lifecycle lock is: nobody holds it, an engine is being
created without the registry lock, or a release waits for callbacks. -/
inductive Phase
  /-- No call is in progress. -/
  | idle
  /-- `nipworker_init_with_options` runs for a client, or for the anchor. -/
  | creating (client : Option Client) (generation : ℕ)
  /-- `nipworker_shared_release` waits on the condition variable. -/
  | releasing
  /-- `nipworker_shared_process_release` waits on the condition variable. -/
  | unanchoring
deriving DecidableEq

/-- What is on the record. -/
inductive Entry
  /-- An engine was created. -/
  | created (handle : ℕ)
  /-- `nipworker_deinit` was called. -/
  | deinitialised (handle : ℕ)
  /-- `nipworker_shared_acquire` returned a handle to a client. -/
  | acquired (client : Client) (handle : ℕ)
  /-- `nipworker_shared_process_acquire` returned a handle. -/
  | anchored (handle : ℕ)
  /-- A call returned the null handle. -/
  | refused
  /-- `nipworker_shared_release` took a reference of a client back. -/
  | released (client : Client) (handle : ℕ)
deriving DecidableEq

/-- The registry, the lifecycle lock and the record. -/
structure State where
  registry : SharedEngineState
  phase : Phase
  history : List Entry

/-- `SharedEngineState::default()`. -/
def init : State where
  registry :=
    { handle := 0, generation := 0, processAnchored := false, clients := Holders.empty
      callbacksInFlight := 0 }
  phase := .idle
  history := []

namespace State

/-- `state.generation.wrapping_add(1).max(1)`. -/
def nextGeneration (s : State) : ℕ := max ((s.registry.generation + 1) % 2 ^ 64) 1

/-- `nipworker_shared_acquire`, up to the creation of an engine. -/
def acquire (s : State) (client : Client) : State :=
  let clients := s.registry.clients.add client
  if s.registry.handle ≠ 0 then
    { s with registry := { s.registry with clients }
             history := s.history ++ [.acquired client s.registry.handle] }
  else
    { s with registry := { s.registry with clients }
             phase := .creating (some client) s.nextGeneration }

/-- `nipworker_shared_process_acquire`, up to the creation of an engine. -/
def processAcquire (s : State) : State :=
  let registry := { s.registry with processAnchored := true }
  if s.registry.handle ≠ 0 then
    { s with registry, history := s.history ++ [.anchored s.registry.handle] }
  else
    { s with registry, phase := .creating none s.nextGeneration }

/-- The end of a creation: a null pointer, or the address of a new engine. -/
def endCreation (s : State) (client : Option Client) (generation handle : ℕ) : State :=
  match client with
  | some client =>
    if handle = 0 then
      { registry := { s.registry with clients := s.registry.clients.remove client }
        phase := .idle
        history := s.history ++ [.refused] }
    else
      { registry := { s.registry with handle, generation }
        phase := .idle
        history := s.history ++ [.created handle, .acquired client handle] }
  | none =>
    if handle = 0 then
      { registry := { s.registry with processAnchored := false }
        phase := .idle
        history := s.history ++ [.refused] }
    else
      { registry := { s.registry with handle, generation }
        phase := .idle
        history := s.history ++ [.created handle, .anchored handle] }

/-- No engine any more, and `nipworker_deinit` for the one there was. -/
def teardown (s : State) : State :=
  { registry := { s.registry with handle := 0 }
    phase := .idle
    history := s.history ++ [.deinitialised s.registry.handle] }

/-- One look at the condition variable, and what follows when no callback is left. -/
def wake (s : State) : State :=
  match s.phase with
  | .releasing =>
    if s.registry.callbacksInFlight ≠ 0 then s
    else if s.registry.clients ≠ Holders.empty then { s with phase := .idle }
    else if s.registry.processAnchored then { s with phase := .idle }
    else s.teardown
  | .unanchoring =>
    if s.registry.callbacksInFlight ≠ 0 then s
    else if s.registry.handle ≠ 0 then s.teardown
    else { s with phase := .idle }
  | _ => s

/-- `nipworker_shared_release`. -/
def release (s : State) (handle : ℕ) (client : Client) : State :=
  if s.registry.handle ≠ handle then s
  else if s.registry.clients.count client = 0 then s
  else
    let clients := s.registry.clients.drop client
    let history := s.history ++ [.released client handle]
    if 1 < s.registry.clients.count client then
      { s with registry := { s.registry with clients }, history }
    else
      wake { registry := { s.registry with clients }, phase := .releasing, history }

/-- `nipworker_shared_process_release`. -/
def processRelease (s : State) : State :=
  if ¬ s.registry.processAnchored then s
  else
    let registry := { s.registry with processAnchored := false }
    if s.registry.clients ≠ Holders.empty then { s with registry }
    else wake { s with registry, phase := .unanchoring }

end State

/-- Calls, callbacks and notifications. -/
inductive Act
  | acquire (client : Client)
  | processAcquire
  | release (handle : ℕ) (client : Client)
  | processRelease
  /-- `nipworker_init_with_options` returns; the address 0 is the null pointer. -/
  | endCreation (handle : ℕ)
  /-- `shared_engine_callback` takes its snapshot of the clients. -/
  | callbackStart
  /-- `shared_engine_callback` has called the last client. -/
  | callbackEnd
  /-- The condition variable is notified. -/
  | wake

/-- A call waits for the lifecycle lock: here it has not begun while another one is in
progress.  `nipworker_deinit` keeps the small handle as a tombstone, so that no later
engine gets the address of an earlier one. -/
def step (s : State) : Act → State
  | .acquire client => if s.phase = .idle then s.acquire client else s
  | .processAcquire => if s.phase = .idle then s.processAcquire else s
  | .release handle client =>
    -- a null handle is refused before the lock is taken
    if handle = 0 then s else if s.phase = .idle then s.release handle client else s
  | .processRelease => if s.phase = .idle then s.processRelease else s
  | .endCreation handle =>
    if .created handle ∈ s.history then s
    else
      match s.phase with
      | .creating client generation => s.endCreation client generation handle
      | _ => s
  | .callbackStart =>
    if s.registry.clients = Holders.empty then s
    else { s with registry :=
      { s.registry with callbacksInFlight := s.registry.callbacksInFlight + 1 } }
  | .callbackEnd =>
    { s with registry :=
      { s.registry with callbacksInFlight := s.registry.callbacksInFlight - 1 } }
  | .wake => s.wake

/-! ### What the record says -/

def Entry.returned : Entry → Option ℕ
  | .acquired _ handle => some handle
  | .anchored handle => some handle
  | _ => none

/-- The handle of an engine that is used by an entry, not made or torn down. -/
def Entry.used : Entry → Option ℕ
  | .acquired _ handle => some handle
  | .anchored handle => some handle
  | .released _ handle => some handle
  | _ => none

/-- The engine was created, and not torn down. -/
def Alive (history : List Entry) (handle : ℕ) : Prop :=
  .created handle ∈ history ∧ .deinitialised handle ∉ history

/-- Every handle a call returned was that of an engine alive at the time. -/
def ReturnsAlive : List Entry → Prop :=
  History.Always fun before entry => ∀ handle, entry.returned = some handle → Alive before handle

/-- What the record says of the current handle and of the earlier ones. -/
structure Recorded (history : List Entry) (current : ℕ) : Prop where
  noNull : .created 0 ∉ history
  createdOnce : ∀ handle, history.count (.created handle) ≤ 1
  tornDown : ∀ handle,
    history.count (.deinitialised handle) + (if handle = current ∧ handle ≠ 0 then 1 else 0)
      = history.count (.created handle)
  known : ∀ entry ∈ history, ∀ handle, entry.used = some handle → .created handle ∈ history
  returns : ReturnsAlive history

namespace Recorded

variable {history : List Entry} {current handle : ℕ}

theorem alive_iff (h : Recorded history current) (handle : ℕ) :
    Alive history handle ↔ handle = current ∧ handle ≠ 0 := by
  have hcount := h.tornDown handle
  have honce := h.createdOnce handle
  rw [Alive, ← count_pos_iff, ← List.count_eq_zero]
  constructor
  · rintro ⟨hcreated, hdown⟩
    by_contra hne
    rw [if_neg hne] at hcount
    omega
  · intro hcurrent
    rw [if_pos hcurrent] at hcount
    omega

theorem count_eq_zero (h : Recorded history current) (hnew : .created handle ∉ history)
    {entry : Entry} (hentry : entry.used = some handle) : history.count entry = 0 :=
  List.count_eq_zero.mpr fun hmem => hnew (h.known entry hmem handle hentry)

theorem count_concat {entry other : Entry} (h : other ≠ entry) :
    (history ++ [other]).count entry = history.count entry := by
  rw [count_append, count_singleton, beq_eq_false_iff_ne.mpr h, if_neg Bool.false_ne_true,
    Nat.add_zero]

theorem count_concat_self {entry : Entry} :
    (history ++ [entry]).count entry = history.count entry + 1 := by
  rw [count_append, count_singleton_self]

theorem extended (h : Recorded history current) {entry : Entry} {next : ℕ}
    (hnull : entry ≠ .created 0)
    (honce : ∀ other, (history ++ [entry]).count (.created other) ≤ 1)
    (hdown : ∀ other, (history ++ [entry]).count (.deinitialised other) +
      (if other = next ∧ other ≠ 0 then 1 else 0) = (history ++ [entry]).count (.created other))
    (hused : ∀ handle, entry.used = some handle → handle = current ∧ handle ≠ 0)
    (hreturned : ∀ handle, entry.returned = some handle → entry.used = some handle) :
    Recorded (history ++ [entry]) next where
  noNull := by
    intro hmem
    rcases List.mem_append.mp hmem with hold | hnew
    · exact h.noNull hold
    · exact hnull (List.mem_singleton.mp hnew).symm
  createdOnce := honce
  tornDown := hdown
  known := by
    intro e he handle hhandle
    refine mem_append_left _ ?_
    rcases List.mem_append.mp he with hold | hnew
    · exact h.known e hold handle hhandle
    · rw [List.mem_singleton.mp hnew] at hhandle
      exact ((h.alive_iff handle).mpr (hused handle hhandle)).1
  returns := History.always_concat.mpr ⟨h.returns, fun handle hhandle =>
    (h.alive_iff handle).mpr (hused handle (hreturned handle hhandle))⟩

theorem concat (h : Recorded history current) (entry : Entry)
    (hmade : ∀ handle, entry ≠ .created handle) (hdown : ∀ handle, entry ≠ .deinitialised handle)
    (hused : ∀ handle, entry.used = some handle → handle = current ∧ handle ≠ 0)
    (hreturned : ∀ handle, entry.returned = some handle → entry.used = some handle) :
    Recorded (history ++ [entry]) current := by
  refine h.extended (hmade 0) (fun other => ?_) (fun other => ?_) hused hreturned
  · rw [count_concat (hmade other)]
    exact h.createdOnce other
  · rw [count_concat (hmade other), count_concat (hdown other)]
    exact h.tornDown other

theorem use (h : Recorded history current) (hcurrent : current ≠ 0) {entry : Entry}
    (hused : entry.used = some current) : Recorded (history ++ [entry]) current := by
  refine h.concat entry ?_ ?_ (fun other hother => ?_) fun other hreturned => ?_
  · rintro handle rfl
    contradiction
  · rintro handle rfl
    contradiction
  · obtain rfl := Option.some.inj (hused.symm.trans hother)
    exact ⟨rfl, hcurrent⟩
  · cases entry with
    | acquired client handle => exact hreturned
    | anchored handle => exact hreturned
    | _ => contradiction

theorem created (h : Recorded history 0) (hzero : handle ≠ 0)
    (hnew : .created handle ∉ history) : Recorded (history ++ [.created handle]) handle := by
  refine h.extended (fun heq => hzero (Entry.created.inj heq)) (fun other => ?_) (fun other => ?_)
    (fun _ hused => by contradiction) fun _ hreturned => by contradiction
  · by_cases hother : other = handle
    · subst hother
      rw [count_concat_self, List.count_eq_zero.mpr hnew]
    · rw [count_concat fun heq => hother (Entry.created.inj heq).symm]
      exact h.createdOnce other
  · have hcount := h.tornDown other
    rw [if_neg fun hboth : other = 0 ∧ other ≠ 0 => hboth.2 hboth.1] at hcount
    rw [count_concat (by simp : Entry.created handle ≠ .deinitialised other)]
    by_cases hother : other = handle
    · subst hother
      rw [count_concat_self, if_pos ⟨rfl, hzero⟩]
      omega
    · rw [count_concat fun heq => hother (Entry.created.inj heq).symm, if_neg fun hboth =>
        hother hboth.1]
      omega

theorem created_use (h : Recorded history 0) (hzero : handle ≠ 0) (hnew : .created handle ∉ history)
    {entry : Entry} (hused : entry.used = some handle) :
    Recorded (history ++ [.created handle, entry]) handle := by
  have hboth := (h.created hzero hnew).use hzero hused
  rwa [append_assoc] at hboth

theorem deinitialised (h : Recorded history current) (hzero : current ≠ 0) :
    Recorded (history ++ [.deinitialised current]) 0 := by
  refine h.extended (by simp) (fun other => ?_) (fun other => ?_)
    (fun _ hused => by contradiction) fun _ hreturned => by contradiction
  · rw [count_concat (by simp : Entry.deinitialised current ≠ .created other)]
    exact h.createdOnce other
  · have hcount := h.tornDown other
    rw [count_concat (by simp : Entry.deinitialised current ≠ .created other),
      if_neg fun hboth : other = 0 ∧ other ≠ 0 => hboth.2 hboth.1]
    by_cases hother : other = current
    · subst hother
      rw [if_pos ⟨rfl, hzero⟩] at hcount
      rw [count_concat_self]
      omega
    · rw [if_neg fun hboth => hother hboth.1] at hcount
      rw [count_concat fun heq => hother (Entry.deinitialised.inj heq).symm]
      omega

end Recorded

/-! ### What the registry says -/

/-- Somebody wants the engine: a client with a reference, or the process. -/
def State.Wanted (s : State) : Prop :=
  (∃ client, 0 < s.registry.clients.count client) ∨ s.registry.processAnchored = true

/-- What the registry says in each phase. -/
def State.AtPhase (s : State) : Prop :=
  match s.phase with
  | .idle => s.registry.handle ≠ 0 ↔ s.Wanted
  | .creating (some client) _ => s.registry.handle = 0 ∧
      s.registry.clients = Holders.single client ∧ s.registry.processAnchored = false
  | .creating none _ => s.registry.handle = 0 ∧
      s.registry.clients = Holders.empty ∧ s.registry.processAnchored = true
  | .releasing => s.registry.handle ≠ 0
  | .unanchoring => s.registry.handle ≠ 0 ∧
      s.registry.clients = Holders.empty ∧ s.registry.processAnchored = false

/-- The reference counts are the acquires less the releases on the current engine. -/
def State.Counted (s : State) : Prop :=
  ∀ client, s.registry.clients.count client +
      s.history.count (.released client s.registry.handle)
    = s.history.count (.acquired client s.registry.handle)

/-- What holds in every state.  While an engine is created for a client, its reference
is there before the handle it is counted for. -/
structure Sound (s : State) : Prop where
  recorded : Recorded s.history s.registry.handle
  counted : (∀ client generation, s.phase ≠ .creating (some client) generation) → s.Counted
  atPhase : s.AtPhase

theorem wanted_iff {s : State} :
    s.Wanted ↔ s.registry.clients ≠ Holders.empty ∨ s.registry.processAnchored = true := by
  rw [State.Wanted, Ne, Holders.eq_empty_iff, not_forall]
  simp only [Nat.pos_iff_ne_zero]

theorem Sound.nobody {s : State} (hrecorded : Recorded s.history 0) (hzero : s.registry.handle = 0)
    (hclients : s.registry.clients = Holders.empty) (hanchor : s.registry.processAnchored = false)
    (hidle : s.phase = .idle) : Sound s where
  recorded := hzero ▸ hrecorded
  counted := fun _ client => by
    rw [hzero, hclients, Holders.count_empty, hrecorded.count_eq_zero hrecorded.noNull rfl,
      hrecorded.count_eq_zero hrecorded.noNull rfl]
  atPhase := by
    simp only [State.AtPhase, hidle]
    rw [wanted_iff]
    refine ⟨fun h => absurd hzero h, ?_⟩
    rintro (h | h)
    · exact absurd hclients h
    · exact absurd (hanchor.symm.trans h) Bool.false_ne_true

theorem sound_init : Sound init := by
  refine .nobody ⟨not_mem_nil, fun _ => Nat.zero_le 1, fun handle => ?_,
    fun e he => absurd he not_mem_nil, History.always_nil⟩ rfl rfl rfl rfl
  show 0 + (if handle = 0 ∧ handle ≠ 0 then 1 else 0) = 0
  rw [if_neg fun hboth => hboth.2 hboth.1]

/-! ### Every call keeps it -/

section Steps

variable {s : State}

theorem Sound.counted_idle (hs : Sound s) (hidle : s.phase = .idle) : s.Counted :=
  hs.counted fun c g heq => by
    rw [hidle] at heq
    contradiction

theorem Sound.wanted (hs : Sound s) (hidle : s.phase = .idle) :
    s.registry.handle ≠ 0 ↔ s.Wanted := by
  have hphase := hs.atPhase
  simpa only [State.AtPhase, hidle] using hphase

theorem Sound.toIdle (hs : Sound s) (hwait : ∀ client generation, s.phase ≠ .creating client generation)
    (hidle : s.registry.handle ≠ 0 ↔ s.Wanted) : Sound { s with phase := .idle } where
  recorded := hs.recorded
  counted := fun _ => hs.counted fun client generation => hwait (some client) generation
  atPhase := hidle

theorem Sound.wake (hs : Sound s) : Sound s.wake := by
  have hphase := hs.atPhase
  cases h : s.phase with
  | idle => simpa only [State.wake, h] using hs
  | creating client generation => simpa only [State.wake, h] using hs
  | releasing =>
    simp only [State.AtPhase, h] at hphase
    have hwait : ∀ client generation, s.phase ≠ .creating client generation := by
      intro client generation heq
      rw [h] at heq
      contradiction
    simp only [State.wake, h]
    split
    · exact hs
    split
    next hclients =>
      exact hs.toIdle hwait ⟨fun _ => wanted_iff.mpr (.inl hclients), fun _ => hphase⟩
    next hclients =>
    split
    next hanchor =>
      exact hs.toIdle hwait ⟨fun _ => .inr hanchor, fun _ => hphase⟩
    next hanchor =>
      exact Sound.nobody (hs.recorded.deinitialised hphase) rfl (not_not.mp hclients)
        (Bool.not_eq_true _ ▸ hanchor) rfl
  | unanchoring =>
    simp only [State.AtPhase, h] at hphase
    simp only [State.wake, h, if_pos hphase.1]
    split
    · exact hs
    · exact Sound.nobody (hs.recorded.deinitialised hphase.1) rfl hphase.2.1 hphase.2.2 rfl

theorem Sound.acquire (hs : Sound s) (hidle : s.phase = .idle) (client : Client) :
    Sound (s.acquire client) := by
  have hphase := hs.wanted hidle
  have hcounted := hs.counted_idle hidle
  rw [State.acquire]
  by_cases hhandle : s.registry.handle ≠ 0
  · -- one more reference on the engine there is
    rw [if_pos hhandle]
    exact {
      recorded := hs.recorded.use hhandle rfl
      counted := fun _ d => by
        show (s.registry.clients.add client).count d +
          (s.history ++ [_]).count (Entry.released d s.registry.handle) =
            (s.history ++ [_]).count (Entry.acquired d s.registry.handle)
        have hd := hcounted d
        rw [Holders.count_add, Recorded.count_concat (by simp : _ ≠ Entry.released d _)]
        by_cases hdc : d = client
        · subst hdc
          rw [if_pos rfl, Recorded.count_concat_self]
          omega
        · rw [if_neg hdc, Recorded.count_concat fun heq => hdc (Entry.acquired.inj heq).1.symm]
          exact hd
      atPhase := by
        simp only [State.AtPhase, hidle]
        exact ⟨fun _ => wanted_iff.mpr (.inl (Holders.add_ne_empty client _)), fun _ => hhandle⟩ }
  · -- nobody was there: an engine is created for the client
    rw [if_neg hhandle]
    have hzero : s.registry.handle = 0 := not_not.mp hhandle
    have hnobody := mt hphase.mpr hhandle
    rw [wanted_iff, not_or, not_not, Bool.not_eq_true] at hnobody
    exact {
      recorded := hs.recorded
      counted := fun h => absurd rfl (h client s.nextGeneration)
      atPhase := by
        show _ ∧ _ ∧ _
        refine ⟨hzero, ?_, hnobody.2⟩
        show s.registry.clients.add client = _
        rw [hnobody.1]
        rfl }

theorem Sound.processAcquire (hs : Sound s) (hidle : s.phase = .idle) :
    Sound s.processAcquire := by
  have hphase := hs.wanted hidle
  have hcounted := hs.counted_idle hidle
  rw [State.processAcquire]
  by_cases hhandle : s.registry.handle ≠ 0
  · rw [if_pos hhandle]
    exact {
      recorded := hs.recorded.use hhandle rfl
      counted := fun _ d => by
        show s.registry.clients.count d +
          (s.history ++ [_]).count (Entry.released d s.registry.handle) =
            (s.history ++ [_]).count (Entry.acquired d s.registry.handle)
        rw [Recorded.count_concat (by simp), Recorded.count_concat (by simp)]
        exact hcounted d
      atPhase := by
        simp only [State.AtPhase, hidle]
        exact ⟨fun _ => .inr rfl, fun _ => hhandle⟩ }
  · rw [if_neg hhandle]
    have hzero : s.registry.handle = 0 := not_not.mp hhandle
    have hnobody := mt hphase.mpr hhandle
    rw [wanted_iff, not_or, not_not] at hnobody
    exact {
      recorded := hs.recorded
      counted := fun _ => hcounted
      atPhase := ⟨hzero, hnobody.1, rfl⟩ }

theorem Sound.endCreation (hs : Sound s) {client : Option Client} {generation handle : ℕ}
    (hcreating : s.phase = .creating client generation)
    (hnew : .created handle ∉ s.history) : Sound (s.endCreation client generation handle) := by
  have hphase := hs.atPhase
  have hrefused : Recorded (s.history ++ [.refused]) s.registry.handle :=
    hs.recorded.concat _ (by simp) (by simp) (fun _ hused => by contradiction)
      (fun _ hreturned => by contradiction)
  cases client with
  | some client =>
    simp only [State.AtPhase, hcreating] at hphase
    obtain ⟨hzero, hclients, hanchor⟩ := hphase
    rw [State.endCreation]
    by_cases hnull : handle = 0
    · simp only [if_pos hnull, hclients, Holders.remove_single]
      exact .nobody (hzero ▸ hrefused) hzero rfl hanchor rfl
    · simp only [if_neg hnull]
      exact {
        recorded := (hzero ▸ hs.recorded).created_use hnull hnew rfl
        counted := fun _ d => by
          show s.registry.clients.count d + (s.history ++ _).count (Entry.released d handle) =
            (s.history ++ _).count (Entry.acquired d handle)
          rw [hclients, Holders.count_single, count_append, count_append,
            hs.recorded.count_eq_zero hnew rfl, hs.recorded.count_eq_zero hnew rfl]
          by_cases hd : client = d
          · subst hd
            simp
          · simp [hd]
        atPhase := by
          refine ⟨fun _ => wanted_iff.mpr (.inl ?_), fun _ => hnull⟩
          show s.registry.clients ≠ _
          rw [hclients]
          exact fun h => absurd (Holders.eq_empty_iff.mp h client) (by simp) }
  | none =>
    simp only [State.AtPhase, hcreating] at hphase
    obtain ⟨hzero, hclients, hanchor⟩ := hphase
    rw [State.endCreation]
    by_cases hnull : handle = 0
    · simp only [if_pos hnull]
      exact .nobody (hzero ▸ hrefused) hzero hclients rfl rfl
    · simp only [if_neg hnull]
      exact {
        recorded := (hzero ▸ hs.recorded).created_use hnull hnew rfl
        counted := fun _ d => by
          show s.registry.clients.count d + (s.history ++ _).count (Entry.released d handle) =
            (s.history ++ _).count (Entry.acquired d handle)
          rw [hclients, Holders.count_empty, count_append, count_append,
            hs.recorded.count_eq_zero hnew rfl, hs.recorded.count_eq_zero hnew rfl]
          simp
        atPhase := ⟨fun _ => .inr hanchor, fun _ => hnull⟩ }

theorem Sound.release (hs : Sound s) (hidle : s.phase = .idle) {handle : ℕ} (hhandle : handle ≠ 0)
    (client : Client) : Sound (s.release handle client) := by
  have hphase := hs.wanted hidle
  have hcounted := hs.counted_idle hidle
  rw [State.release]
  by_cases hstale : s.registry.handle ≠ handle
  · rw [if_pos hstale]
    exact hs
  rw [if_neg hstale]
  have hcurrent : s.registry.handle = handle := not_not.mp hstale
  by_cases hunknown : s.registry.clients.count client = 0
  · rw [if_pos hunknown]
    exact hs
  rw [if_neg hunknown]
  have hrecorded : Recorded (s.history ++ [.released client handle]) s.registry.handle :=
    hs.recorded.use (hcurrent ▸ hhandle) (congrArg some hcurrent.symm)
  -- the reference that goes is on the record
  have hcount : ∀ d, (s.registry.clients.drop client).count d +
      (s.history ++ [Entry.released client handle]).count (.released d s.registry.handle) =
      (s.history ++ [Entry.released client handle]).count (.acquired d s.registry.handle) := by
    intro d
    have hd := hcounted d
    rw [hcurrent] at hd ⊢
    rw [Holders.count_drop, Recorded.count_concat (by simp : Entry.released client handle ≠ .acquired d handle)]
    by_cases hdc : d = client
    · subst hdc
      rw [if_pos rfl, Recorded.count_concat_self]
      omega
    · rw [if_neg hdc, Recorded.count_concat fun heq => hdc (Entry.released.inj heq).1.symm]
      exact hd
  by_cases hmore : 1 < s.registry.clients.count client
  · simp only [if_pos hmore]
    exact {
      recorded := hrecorded
      counted := fun _ => hcount
      atPhase := by
        simp only [State.AtPhase, hidle]
        refine ⟨fun _ => .inl ⟨client, ?_⟩, fun _ => hcurrent ▸ hhandle⟩
        show 0 < (s.registry.clients.drop client).count client
        rw [Holders.count_drop, if_pos rfl]
        omega }
  · simp only [if_neg hmore]
    exact Sound.wake {
      recorded := hrecorded
      counted := fun _ => hcount
      atPhase := hcurrent ▸ hhandle }

theorem Sound.processRelease (hs : Sound s) (hidle : s.phase = .idle) :
    Sound s.processRelease := by
  have hphase := hs.wanted hidle
  have hcounted := hs.counted_idle hidle
  rw [State.processRelease]
  by_cases hanchor : s.registry.processAnchored = true
  · rw [if_neg (not_not.mpr hanchor)]
    have hhandle : s.registry.handle ≠ 0 := hphase.mpr (.inr hanchor)
    by_cases hclients : s.registry.clients ≠ Holders.empty
    · simp only [if_pos hclients]
      exact {
        recorded := hs.recorded
        counted := fun _ => hcounted
        atPhase := by
          simp only [State.AtPhase, hidle]
          exact ⟨fun _ => wanted_iff.mpr (.inl hclients), fun _ => hhandle⟩ }
    · simp only [if_neg hclients]
      exact Sound.wake {
        recorded := hs.recorded
        counted := fun _ => hcounted
        atPhase := ⟨hhandle, not_not.mp hclients, rfl⟩ }
  · rw [if_pos hanchor]
    exact hs

theorem Sound.callbacks (hs : Sound s) (n : ℕ) :
    Sound { s with registry := { s.registry with callbacksInFlight := n } } where
  recorded := hs.recorded
  counted := hs.counted
  atPhase := hs.atPhase

theorem Sound.step (hs : Sound s) (act : Act) : Sound (step s act) := by
  cases act with
  | acquire client =>
    rw [SharedEngine.step]
    split
    next hidle => exact hs.acquire hidle client
    · exact hs
  | processAcquire =>
    rw [SharedEngine.step]
    split
    next hidle => exact hs.processAcquire hidle
    · exact hs
  | release handle client =>
    rw [SharedEngine.step]
    split
    · exact hs
    next hhandle =>
    split
    next hidle => exact hs.release hidle hhandle client
    · exact hs
  | processRelease =>
    rw [SharedEngine.step]
    split
    next hidle => exact hs.processRelease hidle
    · exact hs
  | endCreation handle =>
    rw [SharedEngine.step]
    split
    · exact hs
    next hnew =>
    split
    next hcreating => exact hs.endCreation hcreating hnew
    · exact hs
  | callbackStart =>
    rw [SharedEngine.step]
    split
    · exact hs
    · exact hs.callbacks _
  | callbackEnd => exact hs.callbacks _
  | wake => exact hs.wake

end Steps

/-- Every call, every end of a creation and every callback keeps the invariant. -/
theorem sound_run (acts : List Act) : Sound (Run.exec step init acts) :=
  Run.Along.exec (fun _ act hs _ => hs.step act) sound_init
    (Run.along_of_mem (P := fun _ _ => True) (fun _ _ _ => trivial) init)

/-! ### What a call does -/

/-- What happens while a creation is in progress: anything but its end. -/
def Meanwhile (acts : List Act) : Prop := ∀ act ∈ acts, ∀ handle, act ≠ .endCreation handle

/-- The callbacks in flight come back, and the condition variable is notified. -/
def State.settle (s : State) : State :=
  Run.exec step s (List.replicate s.registry.callbacksInFlight .callbackEnd ++ [.wake])

/-- **What the calls do** from a state between calls: to the references, the anchor, the
engine and the record of what was returned. -/
structure Effects (s : State) : Prop where
  acquire : s.registry.handle ≠ 0 → ∀ client,
    let t := step s (.acquire client)
    t.phase = .idle ∧ t.history = s.history ++ [.acquired client s.registry.handle] ∧
      ∀ other, t.registry.clients.count other =
        s.registry.clients.count other + if other = client then 1 else 0
  acquireFirst : s.registry.handle = 0 → ∀ client meanwhile handle, Meanwhile meanwhile →
    .created handle ∉ s.history →
    let t := Run.exec step s (.acquire client :: meanwhile ++ [.endCreation handle])
    t.phase = .idle ∧ t.registry.handle = handle ∧
      t.history = s.history ++ (if handle = 0 then [.refused]
        else [.created handle, .acquired client handle]) ∧
      ∀ other, t.registry.clients.count other = if handle ≠ 0 ∧ other = client then 1 else 0
  anchor : s.registry.handle ≠ 0 →
    let t := step s .processAcquire
    t.phase = .idle ∧ t.history = s.history ++ [.anchored s.registry.handle] ∧
      t.registry.processAnchored = true ∧ t.registry.clients = s.registry.clients
  anchorFirst : s.registry.handle = 0 → ∀ meanwhile handle, Meanwhile meanwhile →
    .created handle ∉ s.history →
    let t := Run.exec step s (.processAcquire :: meanwhile ++ [.endCreation handle])
    t.phase = .idle ∧ t.registry.handle = handle ∧
      t.history = s.history ++ (if handle = 0 then [.refused]
        else [.created handle, .anchored handle]) ∧
      (t.registry.processAnchored = true ↔ handle ≠ 0)
  release : ∀ client, 0 < s.registry.clients.count client →
    let t := step s (.release s.registry.handle client)
    t.settle.phase = .idle ∧ .released client s.registry.handle ∈ t.history ∧
      ∀ other, t.registry.clients.count other =
        s.registry.clients.count other - if other = client then 1 else 0
  releaseIgnored : ∀ handle client,
    handle ≠ s.registry.handle ∨ s.registry.clients.count client = 0 →
      step s (.release handle client) = s
  unanchor :
    let t := step s .processRelease
    t.settle.phase = .idle ∧ t.registry.processAnchored = false ∧
      t.registry.clients = s.registry.clients

section Effects

variable {s : State}

theorem exec_callbackEnd (s : State) : ∀ n, Run.exec step s (List.replicate n .callbackEnd) =
    { s with registry :=
      { s.registry with callbacksInFlight := s.registry.callbacksInFlight - n } }
  | 0 => rfl
  | n + 1 => by
    rw [replicate_succ, Run.exec_cons, exec_callbackEnd _ n]
    simp only [step, Nat.sub_sub, Nat.add_comm 1 n]

/-- A release that waits is through once the callbacks have come back. -/
theorem settle_idle (hcreating : ∀ client generation, s.phase ≠ .creating client generation) :
    s.settle.phase = .idle := by
  rw [State.settle, Run.exec_append, exec_callbackEnd, Run.exec_cons, Run.exec_nil, Nat.sub_self]
  simp only [step, State.wake]
  cases hphase : s.phase with
  | idle => rfl
  | creating client generation => exact absurd hphase (hcreating client generation)
  | releasing =>
    simp only [ne_eq, not_true_eq_false, if_false]
    split
    · rfl
    · split <;> rfl
  | unanchoring =>
    simp only [ne_eq, not_true_eq_false, if_false]
    split <;> rfl

theorem wake_kept (s : State) : s.wake.registry.clients = s.registry.clients ∧
    s.wake.registry.processAnchored = s.registry.processAnchored ∧ s.history <+: s.wake.history ∧
    ((∀ client generation, s.phase ≠ .creating client generation) →
      ∀ client generation, s.wake.phase ≠ .creating client generation) := by
  have hsame : s.registry.clients = s.registry.clients ∧
      s.registry.processAnchored = s.registry.processAnchored ∧ s.history <+: s.history ∧
      ((∀ client generation, s.phase ≠ .creating client generation) →
        ∀ client generation, s.phase ≠ .creating client generation) :=
    ⟨rfl, rfl, prefix_rfl, id⟩
  have hidle : ∀ (client : Option Client) (generation : ℕ),
      Phase.idle ≠ .creating client generation := nofun
  rw [State.wake]
  split
  · split
    · exact hsame
    · split
      · exact ⟨rfl, rfl, prefix_rfl, fun _ => hidle⟩
      · split
        · exact ⟨rfl, rfl, prefix_rfl, fun _ => hidle⟩
        · exact ⟨rfl, rfl, prefix_append _ _, fun _ => hidle⟩
  · split
    · exact hsame
    · split
      · exact ⟨rfl, rfl, prefix_append _ _, fun _ => hidle⟩
      · exact ⟨rfl, rfl, prefix_rfl, fun _ => hidle⟩
  · exact hsame

/-- Nothing but callbacks happens while a creation is in progress. -/
theorem exec_meanwhile {client : Option Client} {generation : ℕ} : ∀ {acts : List Act} {s : State},
    s.phase = .creating client generation → Meanwhile acts →
    ∃ n, Run.exec step s acts =
      { s with registry := { s.registry with callbacksInFlight := n } }
  | [], s, _, _ => ⟨s.registry.callbacksInFlight, rfl⟩
  | act :: acts, s, hphase, hacts => by
    have hbusy : ¬ s.phase = .idle := fun h => by
      rw [hphase] at h
      cases h
    have hstep : ∃ n, step s act =
        { s with registry := { s.registry with callbacksInFlight := n } } := by
      cases act with
      | acquire client => exact ⟨_, if_neg hbusy⟩
      | processAcquire => exact ⟨_, if_neg hbusy⟩
      | release handle client =>
        refine ⟨s.registry.callbacksInFlight, ?_⟩
        simp only [step, if_neg hbusy, ite_self]
      | processRelease => exact ⟨_, if_neg hbusy⟩
      | endCreation handle => exact absurd rfl (hacts _ mem_cons_self handle)
      | callbackStart =>
        by_cases hnone : s.registry.clients = Holders.empty
        · exact ⟨_, if_pos hnone⟩
        · exact ⟨_, if_neg hnone⟩
      | callbackEnd => exact ⟨_, rfl⟩
      | wake =>
        refine ⟨s.registry.callbacksInFlight, ?_⟩
        show s.wake = s
        rw [State.wake, hphase]
    obtain ⟨n, hstep⟩ := hstep
    rw [Run.exec_cons, hstep]
    exact exec_meanwhile (s := { s with registry := { s.registry with callbacksInFlight := n } })
      hphase fun a ha => hacts a (mem_cons_of_mem _ ha)

theorem exec_creation {t : State} {act : Act} {client : Option Client} {meanwhile : List Act}
    {handle : ℕ} (hstep : step s act = t) (hphase : t.phase = .creating client s.nextGeneration)
    (hmeanwhile : Meanwhile meanwhile) (hnew : .created handle ∉ t.history) :
    ∃ n, Run.exec step s (act :: meanwhile ++ [.endCreation handle]) =
      State.endCreation { t with registry := { t.registry with callbacksInFlight := n } } client
        s.nextGeneration handle := by
  obtain ⟨n, hexec⟩ := exec_meanwhile hphase hmeanwhile
  refine ⟨n, ?_⟩
  rw [cons_append, Run.exec_cons, hstep, Run.exec_append, hexec, Run.exec_cons, Run.exec_nil]
  simp only [step, if_neg hnew, hphase]

theorem Sound.effects (hs : Sound s) (hidle : s.phase = .idle) : Effects s where
  acquire hhandle client := by
    simp only [SharedEngine.step, if_pos hidle, State.acquire, if_pos hhandle]
    exact ⟨hidle, trivial, fun other => Holders.count_add client other _⟩
  acquireFirst hzero client meanwhile handle hmeanwhile hnew := by
    have hphase := hs.wanted hidle
    have hnobody := mt hphase.mpr (not_not.mpr hzero)
    rw [wanted_iff, not_or, not_not] at hnobody
    have hstep : SharedEngine.step s (.acquire client) = { s with
        registry := { s.registry with clients := s.registry.clients.add client }
        phase := .creating (some client) s.nextGeneration } := by
      simp only [SharedEngine.step, if_pos hidle, State.acquire, if_neg (not_not.mpr hzero)]
    obtain ⟨n, hexec⟩ := exec_creation hstep rfl hmeanwhile hnew
    rw [hexec]
    by_cases hnull : handle = 0
    · simp only [State.endCreation, hnull, if_true, ne_eq, not_true_eq_false, false_and, if_false]
      refine ⟨trivial, hzero, trivial, fun other => ?_⟩
      rw [Holders.count_remove, Holders.count_add, hnobody.1, Holders.count_empty]
      split <;> rfl
    · simp only [State.endCreation, if_neg hnull]
      refine ⟨trivial, trivial, trivial, fun other => ?_⟩
      rw [Holders.count_add, hnobody.1, Holders.count_empty, Nat.zero_add]
      simp [hnull]
  anchor hhandle := by
    simp only [SharedEngine.step, if_pos hidle, State.processAcquire, if_pos hhandle]
    exact ⟨hidle, trivial, trivial, trivial⟩
  anchorFirst hzero meanwhile handle hmeanwhile hnew := by
    have hstep : SharedEngine.step s .processAcquire = { s with
        registry := { s.registry with processAnchored := true }
        phase := .creating none s.nextGeneration } := by
      simp only [SharedEngine.step, if_pos hidle, State.processAcquire, if_neg (not_not.mpr hzero)]
    obtain ⟨n, hexec⟩ := exec_creation hstep rfl hmeanwhile hnew
    rw [hexec]
    by_cases hnull : handle = 0
    · simp [State.endCreation, hnull, hzero]
    · simp [State.endCreation, hnull]
  release client hcount := by
    have hphase := hs.wanted hidle
    have hhandle : s.registry.handle ≠ 0 := hphase.mpr (.inl ⟨client, hcount⟩)
    have hcounts : ∀ other, (s.registry.clients.drop client).count other =
        s.registry.clients.count other - if other = client then 1 else 0 :=
      fun other => Holders.count_drop client other _
    have hmem : Entry.released client s.registry.handle ∈
        s.history ++ [Entry.released client s.registry.handle] := by simp
    simp only [SharedEngine.step, if_neg hhandle, if_pos hidle, State.release, ne_eq, not_true_eq_false, if_false,
      Nat.pos_iff_ne_zero.mp hcount]
    split
    · exact ⟨settle_idle (by simp [hidle]), hmem, hcounts⟩
    · obtain ⟨hclients, -, hhistory, hwait⟩ := wake_kept { s with
        registry := { s.registry with clients := s.registry.clients.drop client }
        phase := .releasing
        history := s.history ++ [.released client s.registry.handle] }
      refine ⟨settle_idle (hwait fun _ _ h => by cases h), hhistory.subset hmem, fun other => ?_⟩
      rw [hclients]
      exact hcounts other
  releaseIgnored handle client hignored := by
    by_cases hnull : handle = 0
    · exact if_pos hnull
    · simp only [SharedEngine.step, if_neg hnull, if_pos hidle, State.release]
      split
      · rfl
      · next hcurrent => exact if_pos (hignored.resolve_left fun h => hcurrent (Ne.symm h))
  unanchor := by
    have hcreating : ∀ client generation, s.phase ≠ .creating client generation := by
      simp [hidle]
    simp only [SharedEngine.step, if_pos hidle, State.processRelease]
    split
    · next hanchor =>
      exact ⟨settle_idle hcreating, Bool.not_eq_true _ ▸ hanchor, rfl⟩
    · split
      · exact ⟨settle_idle hcreating, rfl, rfl⟩
      · obtain ⟨hclients, hanchor, -, hwait⟩ := wake_kept { s with
          registry := { s.registry with processAnchored := false }, phase := .unanchoring }
        exact ⟨settle_idle (hwait fun _ _ h => by cases h), hanchor, hclients⟩

end Effects

/-! ### Between calls -/

/-- **The life of the shared engine.**  After any calls and callbacks, when no call is in
progress: an engine lives exactly when a client has a reference or the process is anchored,
and it is the current one; every engine was created once, and torn down once unless it is
the current one; every client has as many references as it took and did not give back on
the current engine; and no call ever returned the handle of an engine torn down.  And the
calls that come next have their `Effects`. -/
theorem shared_engine_lifecycle (acts : List Act)
    (hidle : (Run.exec step init acts).phase = .idle) :
    let s := Run.exec step init acts
    ((∃ handle, Alive s.history handle) ↔ s.Wanted) ∧
    (∀ handle, Alive s.history handle ↔ handle = s.registry.handle ∧ handle ≠ 0) ∧
    (∀ handle, .created handle ∈ s.history → s.history.count (.created handle) = 1 ∧
      s.history.count (.deinitialised handle) = if handle = s.registry.handle then 0 else 1) ∧
    (∀ handle, .deinitialised handle ∈ s.history → .created handle ∈ s.history) ∧
    (∀ client, s.registry.clients.count client +
        s.history.count (.released client s.registry.handle)
      = s.history.count (.acquired client s.registry.handle)) ∧
    ReturnsAlive s.history ∧ Effects s := by
  intro s
  have hs : Sound s := sound_run acts
  have hphase := hs.wanted hidle
  refine ⟨?_, hs.recorded.alive_iff, ?_, ?_, ?_, hs.recorded.returns, hs.effects hidle⟩
  · rw [← hphase]
    constructor
    · rintro ⟨handle, halive⟩
      obtain ⟨rfl, hzero⟩ := (hs.recorded.alive_iff handle).mp halive
      exact hzero
    · intro hzero
      exact ⟨_, (hs.recorded.alive_iff _).mpr ⟨rfl, hzero⟩⟩
  · intro handle hmem
    have hpos := List.count_pos_iff.mpr hmem
    have honce := hs.recorded.createdOnce handle
    have hdown := hs.recorded.tornDown handle
    have hzero : handle ≠ 0 := fun h => hs.recorded.noNull (h ▸ hmem)
    refine ⟨by omega, ?_⟩
    by_cases hcurrent : handle = s.registry.handle
    · rw [if_pos ⟨hcurrent, hzero⟩] at hdown
      rw [if_pos hcurrent]
      omega
    · rw [if_neg fun h => hcurrent h.1] at hdown
      rw [if_neg hcurrent]
      omega
  · intro handle hmem
    have hpos := List.count_pos_iff.mpr hmem
    have hdown := hs.recorded.tornDown handle
    exact List.count_pos_iff.mp (by omega)
  · exact hs.counted_idle hidle

/-- Two clients, one of them twice, an anchor that outlives them, and a second engine. -/
def twoGenerations : List Act :=
  [.acquire ⟨1, 10⟩, .endCreation 100, .acquire ⟨1, 20⟩, .acquire ⟨1, 10⟩, .processAcquire,
    .callbackStart, .release 100 ⟨1, 20⟩, .callbackEnd, .wake, .release 100 ⟨1, 10⟩,
    .release 100 ⟨1, 10⟩, .processRelease, .processAcquire, .endCreation 200,
    .release 100 ⟨1, 10⟩, .acquire ⟨1, 20⟩]

theorem shared_engine_lifecycle_sample :
    let s := Run.exec step init twoGenerations
    s.phase = .idle ∧ s.registry.handle = 200 ∧
    ((∃ handle, Alive s.history handle) ↔ s.Wanted) ∧
    s.history.count (.deinitialised 100) = 1 := by
  have h := shared_engine_lifecycle twoGenerations (by decide)
  exact ⟨by decide, by decide, h.1, (h.2.2.1 100 (by decide)).2⟩

end SharedEngine
end Nipworker
