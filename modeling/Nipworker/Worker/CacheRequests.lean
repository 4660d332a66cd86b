/-
How the cache worker answers a subscription (`worker/cache_worker.rs`).

Each request of the envelope is looked up in the storage, or in the mesh storage, and
the events found are sent to the parser as one batch.  Then a `REQ` goes to the relays
for every request that was not marked to be skipped, and an empty response ends the
answer.
-/
import Nipworker.Storage.CachedAnswers
import Nipworker.Worker.ParserLanes
import Nipworker.Worker.RelayFilter

namespace Nipworker

open List

/-! ### Live events of the mesh -/

/-- `Vec::retain` with a closure that changes a state. -/
def retain {σ α : Type} (keep : σ → α → σ × Bool) : σ → List α → σ × List α
  | s, [] => (s, [])
  | s, a :: rest =>
    let kept := retain keep (keep s a).1 rest
    (kept.1, if (keep s a).2 then a :: kept.2 else kept.2)

/-- The events of the mesh, and when they expire. -/
structure MeshTtlIndex where
  live : Map String ℕ
  expiryQueue : List (ℕ × String)
  pinnedEventId : Option String

namespace MeshTtlIndex

/-- The loop of `prune`. -/
def pruneQueue (now : ℕ) : Map String ℕ → List (ℕ × String) → Map String ℕ × List (ℕ × String)
  | live, [] => (live, [])
  | live, (expiresAt, eventId) :: rest =>
    if expiresAt ≤ now then
      pruneQueue now
        (if live.lookup eventId = some expiresAt then live.erase eventId else live) rest
    else (live, (expiresAt, eventId) :: rest)

def prune (index : MeshTtlIndex) (now : ℕ) : MeshTtlIndex :=
  { index with
    live := (pruneQueue now index.live index.expiryQueue).1
    expiryQueue := (pruneQueue now index.live index.expiryQueue).2 }

def isLive (index : MeshTtlIndex) (eventId : String) (now : ℕ) : MeshTtlIndex × Bool :=
  if index.pinnedEventId = some eventId then (index, true)
  else (index.prune now, ((index.prune now).live.lookup eventId).any (now < ·))

def liveAt (index : MeshTtlIndex) (eventId : String) (now : ℕ) : Bool :=
  index.pinnedEventId = some eventId ∨ (index.live.lookup eventId).any (now < ·)

end MeshTtlIndex

def maxMeshWatches : ℕ := 128

def maxDeliveredIdsPerWatch : ℕ := 4096

/-- A subscription that waits for events of the mesh. -/
structure MeshWatch where
  requests : List Request
  deliveredIds : Finset String
  deliveredOrder : List String

namespace MeshWatch

def new (requests : List Request) : MeshWatch :=
  { requests := requests, deliveredIds := ∅, deliveredOrder := [] }

def remember (watch : MeshWatch) (id : String) : MeshWatch × Bool :=
  if id ∈ watch.deliveredIds then (watch, false)
  else
    let ids := insert id watch.deliveredIds
    let order := watch.deliveredOrder ++ [id]
    if order.length > maxDeliveredIdsPerWatch then
      ({ watch with
          deliveredIds := order.head?.elim ids ids.erase
          deliveredOrder := order.tail }, true)
    else
      ({ watch with
          deliveredIds := ids
          deliveredOrder := order }, true)

end MeshWatch

/-! ### The endpoint -/

def workerMessageEventId (flat : FlatBuffers) (bytes : Bytes) : Option String :=
  (flat.wrappedEvent bytes).map Event.id

/-- What an endpoint is spawned with.  A storage is asked while it is in use: `i` in
`query i` counts the requests of the envelope that were looked at before. -/
structure CacheEndpoint where
  query : ℕ → List Filter → Except StorageError (List Bytes)
  getRelays : FbRequest → Option (List String)
  meshQuery : Option (ℕ → List Filter → Except StorageError (List Bytes))
  hasUpstream : Bool
  allowMeshOnlyQueries : Bool
  trackMeshIngress : Bool

/-- The cells of the cache worker. -/
structure CacheCells where
  watches : Option (Map String MeshWatch)
  meshTtl : Option MeshTtlIndex

/-- `CacheRequest` with a list of requests. -/
structure CacheRequest where
  subId : String
  requests : List FbRequest
  keepMeshWatch : Bool

/-- What the endpoint sends: a `CacheResponse` to the parser, or an envelope with one
frame to the connections. -/
inductive CacheSend
  | response (subId : String) (payload : Bytes)
  | envelope (relays : List String) (frame : Json)

def defaultRelays : List String :=
  ["wss://relay.snort.social", "wss://relay.damus.io", "wss://relay.primal.net"]

/-- The loop over the requests: the shared cells, `skip_req_indices` and
`all_cached_events`. -/
structure QueryLoop where
  cells : CacheCells
  skip : Finset ℕ
  cached : List Bytes

namespace CacheEndpoint

variable (ep : CacheEndpoint) (flat : FlatBuffers) (walk : IterOrder String) (req : CacheRequest)

/-- The mesh requests of the envelope are watched from now on. -/
def registerWatch (cells : CacheCells) : CacheCells :=
  let live := (req.requests.filter FbRequest.meshOnly).map Request.fromFlatbuffer
  if ep.allowMeshOnlyQueries ∧ req.keepMeshWatch ∧ live ≠ [] then
    match cells.watches with
    | some watches =>
      if watches.keys.length < maxMeshWatches ∨ (watches.lookup req.subId).isSome then
        { cells with watches := some (watches.insert req.subId (.new live)) }
      else cells
    | none => cells
  else cells

/-- The storage's answer to a request, if it is asked and has one. -/
def lookUp (i : ℕ) (fb : FbRequest) : Option (List Bytes) :=
  if fb.noCache then none
  else
    match (Request.fromFlatbuffer fb).toFilter walk with
    | .error _ => none
    | .ok filter =>
      match if fb.meshOnly then ep.meshQuery else some ep.query with
      | none => some []
      | some query => (query i [filter]).toOption

def retainLive (now : ℕ) (fb : FbRequest) (cells : CacheCells) (events : List Bytes) :
    CacheCells × List Bytes :=
  match if ep.trackMeshIngress ∨ fb.meshOnly then cells.meshTtl else none with
  | none => (cells, events)
  | some index =>
    let kept := retain (fun index event =>
      match workerMessageEventId flat event with
      | some id => MeshTtlIndex.isLive index id now
      | none => (index, false)) index events
    ({ cells with meshTtl := some kept.1 }, kept.2)

def retainNew (fb : FbRequest) (cells : CacheCells) (events : List Bytes) :
    CacheCells × List Bytes :=
  match if fb.meshOnly ∧ req.keepMeshWatch then cells.watches else none with
  | none => (cells, events)
  | some watches =>
    match watches.lookup req.subId with
    | none => (cells, events)
    | some watch =>
      let kept := retain (fun watch event =>
        match workerMessageEventId flat event with
        | some id => MeshWatch.remember watch id
        | none => (watch, true)) watch events
      ({ cells with watches := some (watches.insert req.subId kept.1) }, kept.2)

/-- One request; `now i` is the clock when its answer is there. -/
def queryOne (now : ℕ → ℕ) (loop : QueryLoop) (entry : FbRequest × ℕ) : QueryLoop :=
  let fb := entry.1
  let i := entry.2
  let skip := if fb.meshOnly then insert i loop.skip else loop.skip
  match ep.lookUp walk i fb with
  | none => { loop with skip := skip }
  | some events =>
    let live := ep.retainLive flat (now i) fb loop.cells events
    let skip := if fb.cacheFirst ∧ live.2 ≠ [] then insert i skip else skip
    let skip := if fb.cacheOnly then insert i skip else skip
    let fresh := retainNew flat req fb live.1 live.2
    { cells := fresh.1, skip := skip, cached := loop.cached ++ fresh.2 }

def relaysOf (fb : FbRequest) : List String :=
  let relays := (((fb.relays.filter fun relays => relays ≠ []).or
    (ep.getRelays fb)).filter fun relays => relays ≠ []).getD defaultRelays
  if 0 < fb.maxRelays.toNat then relays.take fb.maxRelays.toNat else relays

/-- The envelope with the `REQ` of a request. -/
def reqEnvelope (subId : String) (fb : FbRequest) : CacheSend :=
  .envelope (ep.relaysOf fb) (.array [.string "REQ", .string subId, fbRequestToJson fb])

/-- The query path: what is sent, and the cells afterwards. -/
def answer (now : ℕ → ℕ) (cells : CacheCells) : List CacheSend × CacheCells :=
  let start : QueryLoop := { cells := ep.registerWatch req cells, skip := ∅, cached := [] }
  let loop := req.requests.zipIdx.foldl (ep.queryOne flat walk req now) start
  let batch := if loop.cached ≠ [] then [CacheSend.response req.subId (frameLog loop.cached)] else []
  let reqs := (req.requests.zipIdx.filter fun entry => entry.2 ∉ loop.skip).map fun entry =>
    ep.reqEnvelope req.subId entry.1
  (batch ++ (if ep.hasUpstream then reqs else []) ++ [.response req.subId []], loop.cells)

/-- The endpoint of `run_client_endpoint`. -/
def client (query : ℕ → List Filter → Except StorageError (List Bytes))
    (getRelays : FbRequest → Option (List String)) : CacheEndpoint :=
  { query := query
    getRelays := getRelays
    meshQuery := none
    hasUpstream := true
    allowMeshOnlyQueries := false
    trackMeshIngress := false }

/-- The client endpoint of `run_with_mesh`. -/
def clientWithMesh (query meshQuery : ℕ → List Filter → Except StorageError (List Bytes))
    (getRelays : FbRequest → Option (List String)) : CacheEndpoint :=
  { query := query
    getRelays := getRelays
    meshQuery := some meshQuery
    hasUpstream := true
    allowMeshOnlyQueries := true
    trackMeshIngress := false }

/-- The mesh endpoint of `run_with_mesh`. -/
def mesh (meshQuery : ℕ → List Filter → Except StorageError (List Bytes))
    (getRelays : FbRequest → Option (List String)) : CacheEndpoint :=
  { query := meshQuery
    getRelays := getRelays
    meshQuery := none
    hasUpstream := false
    allowMeshOnlyQueries := false
    trackMeshIngress := true }

end CacheEndpoint

/-! ### What the cells let through -/

section Retain

variable {σ α : Type} {keep : σ → α → σ × Bool}

theorem retain_sublist (s : σ) (events : List α) : (retain keep s events).2.Sublist events := by
  induction events generalizing s with
  | nil => exact List.Sublist.refl []
  | cons a rest ih =>
    rw [retain]
    dsimp only
    by_cases hkeep : (keep s a).2 = true
    · rw [if_pos hkeep]
      exact (ih _).cons_cons a
    · rw [if_neg hkeep]
      exact (ih _).cons a

end Retain

namespace MeshTtlIndex

/-- The indexes agree on what is live from `now` on. -/
structure SameFrom (now : ℕ) (index index' : MeshTtlIndex) : Prop where
  pinned : index.pinnedEventId = index'.pinnedEventId
  live : ∀ id t, now ≤ t →
    (index.live.lookup id).any (t < ·) = (index'.live.lookup id).any (t < ·)

theorem SameFrom.refl (now : ℕ) (index : MeshTtlIndex) : SameFrom now index index :=
  ⟨rfl, fun _ _ _ => rfl⟩

theorem SameFrom.trans {now : ℕ} {a b c : MeshTtlIndex} (h : SameFrom now a b)
    (h' : SameFrom now b c) : SameFrom now a c :=
  ⟨h.pinned.trans h'.pinned, fun id t ht => (h.live id t ht).trans (h'.live id t ht)⟩

theorem SameFrom.mono {now later : ℕ} {a b : MeshTtlIndex} (h : SameFrom now a b)
    (hle : now ≤ later) : SameFrom later a b :=
  ⟨h.pinned, fun id t ht => h.live id t (hle.trans ht)⟩

theorem SameFrom.liveAt {now : ℕ} {a b : MeshTtlIndex} (h : SameFrom now a b) (id : String) :
    a.liveAt id now = b.liveAt id now := by
  rw [MeshTtlIndex.liveAt, MeshTtlIndex.liveAt, h.pinned, h.live id now le_rfl]

theorem any_lookup_pruneQueue {now t : ℕ} (ht : now ≤ t) (id : String)
    (queue : List (ℕ × String)) : ∀ live : Map String ℕ,
    ((pruneQueue now live queue).1.lookup id).any (t < ·) = (live.lookup id).any (t < ·) := by
  induction queue with
  | nil => exact fun _ => rfl
  | cons entry rest ih =>
    obtain ⟨expiresAt, eventId⟩ := entry
    intro live
    rw [pruneQueue]
    by_cases hexpired : expiresAt ≤ now
    · rw [if_pos hexpired, ih]
      by_cases hlive : live.lookup eventId = some expiresAt
      · rw [if_pos hlive, Map.lookup_erase_ite]
        by_cases hid : id = eventId
        · rw [if_pos hid, hid, hlive, Option.any_none, Option.any_some]
          exact (decide_eq_false (by omega)).symm
        · rw [if_neg hid]
      · rw [if_neg hlive]
    · rw [if_neg hexpired]

variable (index : MeshTtlIndex)

theorem sameFrom_prune (now : ℕ) : SameFrom now (index.prune now) index :=
  ⟨rfl, fun id _ ht => any_lookup_pruneQueue ht id index.expiryQueue index.live⟩

theorem sameFrom_isLive (id : String) (now : ℕ) : SameFrom now (index.isLive id now).1 index := by
  rw [isLive]
  by_cases hpin : index.pinnedEventId = some id
  · rw [if_pos hpin]
    exact .refl now index
  · rw [if_neg hpin]
    exact sameFrom_prune index now

theorem isLive_eq_liveAt (id : String) (now : ℕ) :
    (index.isLive id now).2 = index.liveAt id now := by
  rw [isLive, liveAt]
  by_cases hpin : index.pinnedEventId = some id
  · rw [if_pos hpin]
    exact (decide_eq_true (.inl hpin)).symm
  · rw [if_neg hpin]
    dsimp only
    rw [(sameFrom_prune index now).live id now le_rfl, Bool.eq_iff_iff, decide_eq_true_eq,
      or_iff_right hpin]

end MeshTtlIndex

def liveEvents (flat : FlatBuffers) (index : MeshTtlIndex) (now : ℕ) (events : List Bytes) :
    List Bytes :=
  events.filter fun event => (workerMessageEventId flat event).any fun id => index.liveAt id now

variable {flat : FlatBuffers}

theorem retain_isLive {now : ℕ} {index₀ : MeshTtlIndex} (events : List Bytes) :
    ∀ index : MeshTtlIndex, index.SameFrom now index₀ →
      let kept := retain (fun index event =>
        match workerMessageEventId flat event with
        | some id => MeshTtlIndex.isLive index id now
        | none => (index, false)) index events
      kept.1.SameFrom now index₀ ∧ kept.2 = liveEvents flat index₀ now events := by
  induction events with
  | nil => exact fun index h => ⟨h, rfl⟩
  | cons event rest ih =>
    intro index h
    rw [retain, liveEvents, filter_cons]
    dsimp only
    match workerMessageEventId flat event with
    | none =>
      obtain ⟨hsame, hkept⟩ := ih index h
      dsimp only
      rw [Option.any_none, if_neg Bool.false_ne_true, if_neg Bool.false_ne_true]
      exact ⟨hsame, hkept⟩
    | some id =>
      obtain ⟨hsame, hkept⟩ := ih (index.isLive id now).1 ((index.sameFrom_isLive id now).trans h)
      rw [Option.any_some]
      dsimp only
      rw [index.isLive_eq_liveAt, h.liveAt]
      exact ⟨hsame, by rw [hkept]; rfl⟩

/-- Two messages with one event. -/
def SameEvent (flat : FlatBuffers) (event event' : Bytes) : Prop :=
  ∃ id, workerMessageEventId flat event = some id ∧ workerMessageEventId flat event' = some id

/-- The id was delivered before, or is that of one of the events. -/
def DeliveredBy (flat : FlatBuffers) (before : Finset String) (events : List Bytes) (id : String) :
    Prop :=
  id ∈ before ∨ ∃ event ∈ events, workerMessageEventId flat event = some id

theorem DeliveredBy.append {before : Finset String} {events : List Bytes}
    {id : String} (h : DeliveredBy flat before events id) (more : List Bytes) :
    DeliveredBy flat before (events ++ more) id :=
  h.imp_right fun ⟨event, hmem, hid⟩ => ⟨event, mem_append_left _ hmem, hid⟩

theorem mem_remember {watch : MeshWatch} {id id' : String}
    (h : id' ∈ (watch.remember id).1.deliveredIds) : id' ∈ watch.deliveredIds ∨ id' = id := by
  rw [MeshWatch.remember] at h
  by_cases hold : id ∈ watch.deliveredIds
  · rw [if_pos hold] at h
    exact .inl h
  · rw [if_neg hold] at h
    dsimp only at h
    by_cases hfull : (watch.deliveredOrder ++ [id]).length > maxDeliveredIdsPerWatch
    · rw [if_pos hfull] at h
      dsimp only at h
      match hhead : (watch.deliveredOrder ++ [id]).head? with
      | none =>
        rw [hhead] at h
        exact (Finset.mem_insert.mp h).symm
      | some oldest =>
        rw [hhead] at h
        exact (Finset.mem_insert.mp (Finset.mem_of_mem_erase h)).symm
    · rw [if_neg hfull] at h
      exact (Finset.mem_insert.mp h).symm

theorem remember_eq_false {watch : MeshWatch} {id : String} (h : (watch.remember id).2 ≠ true) :
    id ∈ watch.deliveredIds ∧ (watch.remember id).1 = watch := by
  rw [MeshWatch.remember] at h ⊢
  by_cases hold : id ∈ watch.deliveredIds
  · rw [if_pos hold]
    exact ⟨hold, rfl⟩
  · rw [if_neg hold] at h
    dsimp only at h
    by_cases hfull : (watch.deliveredOrder ++ [id]).length > maxDeliveredIdsPerWatch
    · rw [if_pos hfull] at h
      exact absurd rfl h
    · rw [if_neg hfull] at h
      exact absurd rfl h

theorem retain_remember {before : Finset String} (events : List Bytes) :
    ∀ (watch : MeshWatch) (sent : List Bytes),
      (∀ id ∈ watch.deliveredIds, DeliveredBy flat before sent id) →
      let kept := retain (fun watch event =>
        match workerMessageEventId flat event with
        | some id => MeshWatch.remember watch id
        | none => (watch, true)) watch events
      (∀ id ∈ kept.1.deliveredIds, DeliveredBy flat before (sent ++ kept.2) id) ∧
        ∀ event ∈ events, event ∈ kept.2 ∨ ∃ id, workerMessageEventId flat event = some id ∧
          DeliveredBy flat before (sent ++ kept.2) id := by
  induction events with
  | nil =>
    intro watch sent h
    refine ⟨fun id hid => (h id hid).append [], fun event hmem => absurd hmem not_mem_nil⟩
  | cons event rest ih =>
    intro watch sent h
    rw [retain]
    dsimp only
    have hsplit : ∀ kept : List Bytes, sent ++ event :: kept = sent ++ [event] ++ kept := by
      intro kept
      rw [append_assoc, singleton_append]
    match hid : workerMessageEventId flat event with
    | none =>
      obtain ⟨hdelivered, hrest⟩ := ih watch (sent ++ [event]) fun id hid => (h id hid).append _
      dsimp only
      rw [if_pos rfl, hsplit]
      refine ⟨hdelivered, fun event' hmem => ?_⟩
      obtain rfl | hmem := List.mem_cons.mp hmem
      · exact .inl mem_cons_self
      · exact (hrest event' hmem).imp_left (mem_cons_of_mem _)
    | some id =>
      dsimp only
      by_cases hnew : (watch.remember id).2 = true
      · rw [if_pos hnew, hsplit]
        obtain ⟨hdelivered, hrest⟩ := ih (watch.remember id).1 (sent ++ [event]) fun id' hid' => by
          obtain hold | rfl := mem_remember hid'
          · exact (h id' hold).append _
          · exact .inr ⟨event, mem_append_right _ (mem_singleton_self event), hid⟩
        refine ⟨hdelivered, fun event' hmem => ?_⟩
        obtain rfl | hmem := List.mem_cons.mp hmem
        · exact .inl mem_cons_self
        · exact (hrest event' hmem).imp_left (mem_cons_of_mem _)
      · obtain ⟨hold, hsame⟩ := remember_eq_false hnew
        rw [if_neg hnew, hsame]
        obtain ⟨hdelivered, hrest⟩ := ih watch sent h
        refine ⟨hdelivered, fun event' hmem => ?_⟩
        obtain rfl | hmem := List.mem_cons.mp hmem
        · exact .inr ⟨id, hid, (h id hold).append _⟩
        · exact hrest event' hmem

/-! ### The loop over the requests -/

namespace CacheEndpoint

variable (ep : CacheEndpoint) (flat : FlatBuffers) (walk : IterOrder String) (req : CacheRequest)

def found (now : ℕ → ℕ) (cells : CacheCells) (entry : FbRequest × ℕ) : Option (List Bytes) :=
  (ep.lookUp walk entry.2 entry.1).map fun events =>
    match if ep.trackMeshIngress ∨ entry.1.meshOnly then cells.meshTtl else none with
    | none => events
    | some index => liveEvents flat index (now entry.2) events

/-- The relays are not asked. -/
def Skipped (now : ℕ → ℕ) (cells : CacheCells) (entry : FbRequest × ℕ) : Prop :=
  entry.1.meshOnly = true ∨ ∃ events, ep.found flat walk now cells entry = some events ∧
    (entry.1.cacheOnly = true ∨ entry.1.cacheFirst = true ∧ events ≠ [])

/-- The ids that the watch of the subscription delivered before the envelope. -/
def deliveredBefore (cells : CacheCells) : Finset String :=
  (((ep.registerWatch req cells).watches.bind fun watches => watches.lookup req.subId).map
    MeshWatch.deliveredIds).getD ∅

/-- What the loop leaves behind after the requests of `done`; `cells` are those it began
with. -/
structure Answered (now : ℕ → ℕ) (cells : CacheCells) (before : Finset String)
    (done : List (FbRequest × ℕ)) (loop : QueryLoop) : Prop where
  skip : ∀ i, i ∈ loop.skip ↔ ∃ entry ∈ done, entry.2 = i ∧ ep.Skipped flat walk now cells entry
  ttl : loop.cells.meshTtl.isSome = cells.meshTtl.isSome
  same : ∀ t, (∀ entry ∈ done, now entry.2 ≤ t) → ∀ index ∈ loop.cells.meshTtl,
    ∀ index₀ ∈ cells.meshTtl, index.SameFrom t index₀
  watch : ∀ watches ∈ loop.cells.watches, ∀ watch ∈ watches.lookup req.subId,
    ∀ id ∈ watch.deliveredIds, DeliveredBy flat before loop.cached id
  sent : ∀ entry ∈ done, ∀ events, ep.found flat walk now cells entry = some events →
    ∀ event ∈ events, event ∈ loop.cached ∨
      (entry.1.meshOnly = true ∧ req.keepMeshWatch = true) ∧
        ∃ id, workerMessageEventId flat event = some id ∧ DeliveredBy flat before loop.cached id
  only : ∀ event ∈ loop.cached, ∃ entry ∈ done, ∃ events,
    ep.found flat walk now cells entry = some events ∧ event ∈ events

variable {ep flat walk req}

theorem retainLive_spec {now : ℕ → ℕ} {cells cells₀ : CacheCells} {entry : FbRequest × ℕ}
    (hsome : cells.meshTtl.isSome = cells₀.meshTtl.isSome)
    (hsame : ∀ index ∈ cells.meshTtl, ∀ index₀ ∈ cells₀.meshTtl, index.SameFrom (now entry.2) index₀)
    {events : List Bytes} (hlook : ep.lookUp walk entry.2 entry.1 = some events) :
    let live := ep.retainLive flat (now entry.2) entry.1 cells events
    ep.found flat walk now cells₀ entry = some live.2 ∧ live.1.watches = cells.watches ∧
      live.1.meshTtl.isSome = cells₀.meshTtl.isSome ∧
      ∀ index ∈ live.1.meshTtl, ∀ index₀ ∈ cells₀.meshTtl, index.SameFrom (now entry.2) index₀ := by
  rw [found, hlook, Option.map_some, retainLive]
  by_cases hmesh : ep.trackMeshIngress = true ∨ entry.1.meshOnly = true
  · rw [if_pos hmesh, if_pos hmesh]
    match hindex : cells.meshTtl, hindex₀ : cells₀.meshTtl with
    | none, none =>
      exact ⟨rfl, rfl, by rw [hindex], fun _ _ _ h => nomatch h⟩
    | none, some _ => rw [hindex, hindex₀] at hsome; exact nomatch hsome
    | some _, none => rw [hindex, hindex₀] at hsome; exact nomatch hsome
    | some index, some index₀ =>
      obtain ⟨hkept, hlive⟩ := retain_isLive events index (hsame index hindex index₀ hindex₀)
      refine ⟨congrArg some hlive.symm, rfl, rfl, ?_⟩
      rintro _ ⟨⟩ _ ⟨⟩
      exact hkept
  · rw [if_neg hmesh, if_neg hmesh]
    exact ⟨rfl, rfl, hsome, hsame⟩

theorem retainNew_spec {before : Finset String} {cells : CacheCells} {cached : List Bytes}
    (hwatch : ∀ watches ∈ cells.watches, ∀ watch ∈ watches.lookup req.subId,
      ∀ id ∈ watch.deliveredIds, DeliveredBy flat before cached id)
    (fb : FbRequest) (events : List Bytes) :
    let fresh := retainNew flat req fb cells events
    fresh.1.meshTtl = cells.meshTtl ∧ fresh.2.Sublist events ∧
      (∀ watches ∈ fresh.1.watches, ∀ watch ∈ watches.lookup req.subId,
        ∀ id ∈ watch.deliveredIds, DeliveredBy flat before (cached ++ fresh.2) id) ∧
      ∀ event ∈ events, event ∈ fresh.2 ∨ (fb.meshOnly = true ∧ req.keepMeshWatch = true) ∧
        ∃ id, workerMessageEventId flat event = some id ∧
          DeliveredBy flat before (cached ++ fresh.2) id := by
  -- nothing is dropped unless there is a watch of the subscription
  have hall : let fresh := (cells, events)
      fresh.1.meshTtl = cells.meshTtl ∧ fresh.2.Sublist events ∧
        (∀ watches ∈ fresh.1.watches, ∀ watch ∈ watches.lookup req.subId,
          ∀ id ∈ watch.deliveredIds, DeliveredBy flat before (cached ++ fresh.2) id) ∧
        ∀ event ∈ events, event ∈ fresh.2 ∨ (fb.meshOnly = true ∧ req.keepMeshWatch = true) ∧
          ∃ id, workerMessageEventId flat event = some id ∧
            DeliveredBy flat before (cached ++ fresh.2) id :=
    ⟨rfl, .refl _, fun watches hwatches watch hlookup id hid =>
      (hwatch watches hwatches watch hlookup id hid).append events, fun _ hmem => .inl hmem⟩
  rw [retainNew]
  by_cases hkeep : fb.meshOnly = true ∧ req.keepMeshWatch = true
  · rw [if_pos hkeep]
    match hwatches : cells.watches with
    | none => exact hall
    | some watches =>
      dsimp only
      match hlookup : watches.lookup req.subId with
      | none => exact hall
      | some watch =>
        obtain ⟨hdelivered, hsent⟩ :=
          retain_remember events watch cached (hwatch watches hwatches watch hlookup)
        refine ⟨rfl, retain_sublist _ _, ?_, fun event hmem =>
          (hsent event hmem).imp_right fun h => ⟨hkeep, h⟩⟩
        rintro _ ⟨⟩ watch' hwatch'
        rw [Option.mem_def, AList.lookup_insert, Option.some.injEq] at hwatch'
        rw [← hwatch']
        exact hdelivered
  · rw [if_neg hkeep]
    exact hall

variable {now : ℕ → ℕ} {cells : CacheCells} {before : Finset String}
  {done : List (FbRequest × ℕ)} {loop : QueryLoop} {entry : FbRequest × ℕ}

theorem exists_concat {p : FbRequest × ℕ → Prop} :
    (∃ e ∈ done ++ [entry], p e) ↔ (∃ e ∈ done, p e) ∨ p entry := by
  simp only [mem_append, mem_singleton, or_and_right, exists_or, exists_eq_left]

/-- **One request.** -/
theorem Answered.queryOne (h : Answered ep flat walk req now cells before done loop)
    (hclock : ∀ e ∈ done, now e.2 ≤ now entry.2) :
    Answered ep flat walk req now cells before (done ++ [entry])
      (ep.queryOne flat walk req now loop entry) := by
  have hskip : ∀ (s : Finset ℕ) (c : Prop) [Decidable c] (i : ℕ),
      i ∈ (if c then insert entry.2 s else s) ↔ i ∈ s ∨ entry.2 = i ∧ c := by
    intro s c _ i
    by_cases hc : c
    · rw [if_pos hc, Finset.mem_insert, or_comm, and_iff_left hc, eq_comm]
    · rw [if_neg hc, or_iff_left fun hno => hc hno.2]
  have hold : ∀ (i : ℕ) (P : Prop), (P ↔ ep.Skipped flat walk now cells entry) →
      (i ∈ loop.skip ∨ entry.2 = i ∧ P ↔
        ∃ e ∈ done ++ [entry], e.2 = i ∧ ep.Skipped flat walk now cells e) := by
    intro i P hP
    rw [exists_concat, h.skip, hP]
  rw [CacheEndpoint.queryOne]
  dsimp only
  match hlook : ep.lookUp walk entry.2 entry.1 with
  | none =>
    have hfound : ep.found flat walk now cells entry = none := by
      rw [found, hlook, Option.map_none]
    refine ⟨fun i => ?_, h.ttl, fun t ht => h.same t fun e he => ht e (mem_append_left _ he),
      h.watch, fun e he events hevents => ?_, fun event hevent => ?_⟩
    · rw [hskip]
      refine hold i _ ?_
      rw [Skipped, hfound]
      exact (or_iff_left fun ⟨_, hno, _⟩ => nomatch hno).symm
    · obtain he | he := List.mem_append.mp he
      · exact h.sent e he events hevents
      · rw [List.mem_singleton.mp he, hfound] at hevents
        exact nomatch hevents
    · obtain ⟨e, he, hrest⟩ := h.only event hevent
      exact ⟨e, mem_append_left _ he, hrest⟩
  | some events =>
    obtain ⟨hfound, hwatches, httl, hsame⟩ :=
      retainLive_spec h.ttl (h.same _ hclock) hlook
    dsimp only
    generalize ep.retainLive flat (now entry.2) entry.1 loop.cells events = live at *
    obtain ⟨hmesh, hsub, hwatch, hsent⟩ :=
      retainNew_spec (hwatches.symm ▸ h.watch) entry.1 live.2
    refine ⟨fun i => ?_, (congrArg Option.isSome hmesh).trans httl, fun t ht => ?_, hwatch,
      fun e he found hevents event hevent => ?_, fun event hevent => ?_⟩
    · rw [hskip, hskip, hskip, or_assoc, or_assoc, ← and_or_left, ← and_or_left]
      refine hold i _ ?_
      rw [Skipped, hfound]
      constructor
      · rintro (hm | hc | ho)
        · exact .inl hm
        · exact .inr ⟨_, rfl, .inr hc⟩
        · exact .inr ⟨_, rfl, .inl ho⟩
      · rintro (hm | ⟨_, ⟨⟩, ho | hc⟩)
        · exact .inl hm
        · exact .inr (.inr ho)
        · exact .inr (.inl hc)
    · rw [hmesh]
      exact fun index hindex index₀ hindex₀ => (hsame index hindex index₀ hindex₀).mono
        (ht entry (mem_append_right _ (mem_singleton_self entry)))
    · obtain he | he := List.mem_append.mp he
      · obtain hcached | ⟨hkeep, id, hid, hdelivered⟩ := h.sent e he found hevents event hevent
        · exact .inl (mem_append_left _ hcached)
        · exact .inr ⟨hkeep, id, hid, hdelivered.append _⟩
      · obtain rfl := List.mem_singleton.mp he
        rw [hfound, Option.some.injEq] at hevents
        exact (hsent event (hevents ▸ hevent)).imp_left (mem_append_right _)
    · obtain hcached | hnew := List.mem_append.mp hevent
      · obtain ⟨e, he, hrest⟩ := h.only event hcached
        exact ⟨e, mem_append_left _ he, hrest⟩
      · exact ⟨entry, mem_append_right _ (mem_singleton_self entry), live.2, hfound,
          hsub.subset hnew⟩

/-- **The loop.** -/
theorem Answered.run (todo : List (FbRequest × ℕ)) : ∀ {done : List (FbRequest × ℕ)}
    {loop : QueryLoop}, Answered ep flat walk req now cells before done loop →
    ((done ++ todo).map fun e => now e.2).Pairwise (· ≤ ·) →
    Answered ep flat walk req now cells before (done ++ todo)
      (todo.foldl (ep.queryOne flat walk req now) loop) := by
  induction todo with
  | nil =>
    intro done loop h _
    rw [append_nil]
    exact h
  | cons entry rest ih =>
    intro done loop h hclock
    have hnext : done ++ entry :: rest = done ++ [entry] ++ rest := by
      rw [append_assoc, singleton_append]
    rw [hnext] at hclock ⊢
    refine ih (h.queryOne fun e he => ?_) hclock
    rw [map_append, map_append] at hclock
    exact (List.pairwise_append.mp (List.pairwise_append.mp hclock).1).2.2 _
      (mem_map_of_mem he) _ (mem_singleton_self _)

end CacheEndpoint

/-! ### The batch -/

theorem unpack_frame_append {message : Bytes} (hne : message ≠ []) (hlen : message.length < 2 ^ 32)
    (rest : Bytes) : unpackBatchedMessages (frame message ++ rest) =
      message :: unpackBatchedMessages rest := by
  have hframe := takeFrame_frame hlen rest
  rw [unpackBatchedMessages]
  split
  · next hnone =>
    rw [hframe] at hnone
    contradiction
  · next hsome =>
    obtain ⟨rfl, rfl⟩ := Prod.ext_iff.mp (Option.some.inj (hframe.symm.trans hsome))
    exact if_neg hne

/-- The parser takes a batch of messages apart again. -/
theorem unpack_frameLog {batch : List Bytes}
    (h : ∀ message ∈ batch, message ≠ [] ∧ message.length < 2 ^ 32) :
    unpackBatchedMessages (frameLog batch) = batch := by
  induction batch with
  | nil =>
    rw [frameLog_nil, unpackBatchedMessages]
    rfl
  | cons message rest ih =>
    obtain ⟨hne, hlen⟩ := h message mem_cons_self
    rw [frameLog_cons, unpack_frame_append hne hlen,
      ih fun message hmem => h message (mem_cons_of_mem _ hmem)]

/-! ### The answer -/

namespace CacheEndpoint

variable (ep : CacheEndpoint) (flat : FlatBuffers) (walk : IterOrder String) (req : CacheRequest)
  (now : ℕ → ℕ) (cells : CacheCells)

/-- The request should go to the relays: it is neither for the mesh nor for the cache
alone, and not answered by a hit that comes first. -/
def AskedOfRelays (entry : FbRequest × ℕ) : Prop :=
  entry.1.meshOnly = false ∧ entry.1.cacheOnly = false ∧
    ¬ (entry.1.cacheFirst = true ∧
      ∃ events, ep.found flat walk now cells entry = some events ∧ events ≠ [])

instance (entry : FbRequest × ℕ) : Decidable (ep.AskedOfRelays flat walk now cells entry) :=
  match h : ep.found flat walk now cells entry with
  | none => decidable_of_iff (entry.1.meshOnly = false ∧ entry.1.cacheOnly = false) (by
      rw [AskedOfRelays, h]
      simp)
  | some events => decidable_of_iff (entry.1.meshOnly = false ∧ entry.1.cacheOnly = false ∧
      ¬ (entry.1.cacheFirst = true ∧ events ≠ [])) (by
      rw [AskedOfRelays, h]
      simp)

/-- The request is looked up: the cache may be asked, there is a filter for it, and the
storage answers. -/
def CanLookUp (entry : FbRequest × ℕ) : Prop :=
  entry.1.noCache = false ∧ ∃ filter, (Request.fromFlatbuffer entry.1).toFilter walk = .ok filter ∧
    ∃ events, ep.query entry.2 [filter] = .ok events

/-- The storages answer with messages: they are not empty, and a length of 32 bits holds
theirs. -/
def AnswersMessages : Prop :=
  ∀ query ∈ some ep.query :: [ep.meshQuery], ∀ q ∈ query, ∀ i filters events,
    q i filters = .ok events → ∀ event ∈ events, event ≠ [] ∧ event.length < 2 ^ 32

/-- An endpoint with a connection to the relays, the only one that opens watches. -/
def ServesClient : Prop :=
  ep.hasUpstream = true ∧ (ep.allowMeshOnlyQueries = true ∨ cells.watches = none)

/-- **The answer to an envelope**: one batch with the events found, unless there are none,
then the `REQ`s of the requests for the relays, and the marker at the end.  The parser
finds in the batch the events that were found: each of them, or another message with the
same event. -/
def AnswersAsAsked : Prop :=
  ∃ batch : List Bytes,
    (ep.answer flat walk req now cells).1 =
      (if batch ≠ [] then [.response req.subId (frameLog batch)] else []) ++
        ((req.requests.zipIdx.filter fun entry => ep.AskedOfRelays flat walk now cells entry).map
          fun entry => ep.reqEnvelope req.subId entry.1) ++
        [.response req.subId []] ∧
    unpackBatchedMessages (frameLog batch) = batch ∧
    (∀ entry ∈ req.requests.zipIdx, ∀ events, ep.found flat walk now cells entry = some events →
      ∀ event ∈ events, event ∈ batch ∨ ∃ event' ∈ batch, SameEvent flat event event') ∧
    ∀ event ∈ batch, ∃ entry ∈ req.requests.zipIdx, ∃ events,
      ep.found flat walk now cells entry = some events ∧ event ∈ events

variable {ep flat walk req now cells}

theorem meshTtl_registerWatch (ep : CacheEndpoint) (req : CacheRequest) (cells : CacheCells) :
    (ep.registerWatch req cells).meshTtl = cells.meshTtl := by
  rw [registerWatch]
  split
  · match cells.watches with
    | none => rfl
    | some watches =>
      dsimp only
      split <;> rfl
  · rfl

theorem watch_registerWatch (hclient : ep.ServesClient cells)
    (hmesh : ∃ fb ∈ req.requests, fb.meshOnly = true) (hkeep : req.keepMeshWatch = true) :
    ep.deliveredBefore req cells = ∅ := by
  have hlive : (req.requests.filter FbRequest.meshOnly).map Request.fromFlatbuffer ≠ [] := by
    obtain ⟨fb, hmem, hfb⟩ := hmesh
    exact ne_nil_of_mem (mem_map_of_mem (List.mem_filter.mpr ⟨hmem, hfb⟩))
  rw [deliveredBefore, registerWatch]
  obtain hallow | hnone := hclient.2
  · rw [if_pos ⟨hallow, hkeep, hlive⟩]
    match hwatches : cells.watches with
    | none => rw [hwatches]; rfl
    | some watches =>
      dsimp only
      by_cases hroom : watches.keys.length < maxMeshWatches ∨ (watches.lookup req.subId).isSome
      · rw [if_pos hroom, Option.bind_some, AList.lookup_insert]
        rfl
      · -- no room for it, and none of the subscription
        have hno : watches.lookup req.subId = none :=
          Option.not_isSome_iff_eq_none.mp fun h => hroom (.inr h)
        rw [if_neg hroom, hwatches, Option.bind_some, hno]
        rfl
  · rw [hnone]
    split <;> rw [hnone] <;> rfl

/-- What the loop over the requests leaves behind. -/
theorem answered_run (hclock : Monotone now) :
    Answered ep flat walk req now cells (ep.deliveredBefore req cells) req.requests.zipIdx
      (req.requests.zipIdx.foldl (ep.queryOne flat walk req now)
        { cells := ep.registerWatch req cells, skip := ∅, cached := [] }) := by
  have hstart : Answered ep flat walk req now cells (ep.deliveredBefore req cells) []
      { cells := ep.registerWatch req cells, skip := ∅, cached := [] } := by
    refine ⟨fun i => ?_, congrArg _ (meshTtl_registerWatch ep req cells),
      fun t _ index hindex index₀ hindex₀ => ?_, fun watches hwatches watch hwatch id hid => ?_,
      fun e he => absurd he not_mem_nil, fun e he => absurd he not_mem_nil⟩
    · exact iff_of_false (Finset.notMem_empty i) fun ⟨e, he, _⟩ => absurd he not_mem_nil
    · have hmem : index ∈ (ep.registerWatch req cells).meshTtl := hindex
      rw [meshTtl_registerWatch] at hmem
      rw [Option.mem_unique hmem hindex₀]
      exact .refl t index₀
    · have hmem : (ep.registerWatch req cells).watches = some watches := hwatches
      refine .inl ?_
      rw [deliveredBefore, hmem, Option.bind_some, hwatch]
      exact hid
  have hrun := hstart.run req.requests.zipIdx ?_
  · exact hrun
  · have hmap : (req.requests.zipIdx.map fun entry => now entry.2) =
        (List.range' 0 req.requests.length).map now := by
      rw [← zipIdx_map_snd, map_map]
      rfl
    rw [nil_append, hmap]
    exact (pairwise_le_range' 1).map now fun a b hab => hclock hab

variable {entry : FbRequest × ℕ}

theorem found_eq_some {events : List Bytes}
    (h : ep.found flat walk now cells entry = some events) : ∃ answer,
      ep.lookUp walk entry.2 entry.1 = some answer ∧ ∀ event ∈ events, event ∈ answer := by
  obtain ⟨answer, hlook, hevents⟩ := Option.map_eq_some_iff.mp h
  refine ⟨answer, hlook, fun event hmem => ?_⟩
  rw [← hevents] at hmem
  split at hmem
  · exact hmem
  · exact mem_of_mem_filter hmem

theorem message_of_lookUp (hmsg : ep.AnswersMessages) {i : ℕ} {fb : FbRequest} {events : List Bytes}
    (h : ep.lookUp walk i fb = some events) {event : Bytes} (hevent : event ∈ events) :
    event ≠ [] ∧ event.length < 2 ^ 32 := by
  rw [lookUp] at h
  by_cases hno : fb.noCache = true
  · rw [if_pos hno] at h
    exact nomatch h
  rw [if_neg hno] at h
  match hfilter : (Request.fromFlatbuffer fb).toFilter walk with
  | .error _ =>
    rw [hfilter] at h
    exact nomatch h
  | .ok filter =>
    rw [hfilter] at h
    dsimp only at h
    match hquery : if fb.meshOnly = true then ep.meshQuery else some ep.query with
    | none =>
      rw [hquery] at h
      rw [← Option.some.inj h] at hevent
      exact absurd hevent not_mem_nil
    | some query =>
      rw [hquery] at h
      have hmem : some query ∈ some ep.query :: [ep.meshQuery] := by
        by_cases hmesh : fb.meshOnly = true
        · rw [if_pos hmesh] at hquery
          rw [hquery]
          exact mem_cons_of_mem _ (mem_singleton_self _)
        · rw [if_neg hmesh] at hquery
          rw [hquery]
          exact mem_cons_self
      dsimp only at h
      match hanswer : query i [filter] with
      | .error _ =>
        rw [hanswer] at h
        exact nomatch h
      | .ok answer =>
        rw [hanswer] at h
        obtain rfl := Option.some.inj h
        exact hmsg _ hmem query rfl i [filter] answer hanswer event hevent

theorem canLookUp_iff (hmesh : entry.1.meshOnly = false) :
    ep.CanLookUp walk entry ↔ ∃ events, ep.found flat walk now cells entry = some events := by
  have hfound : (∃ events, ep.found flat walk now cells entry = some events) ↔
      ∃ events, ep.lookUp walk entry.2 entry.1 = some events := by
    simp only [found, Option.map_eq_some_iff]
    exact ⟨fun ⟨_, events, h, _⟩ => ⟨events, h⟩, fun ⟨events, h⟩ => ⟨_, events, h, rfl⟩⟩
  rw [hfound, CanLookUp, lookUp, hmesh]
  by_cases hno : entry.1.noCache = true
  · rw [if_pos hno, hno]
    exact iff_of_false (fun h => nomatch h.1) fun ⟨_, h⟩ => nomatch h
  · rw [if_neg hno, and_iff_right (Bool.eq_false_iff.mpr hno)]
    match (Request.fromFlatbuffer entry.1).toFilter walk with
    | .error _ => exact iff_of_false (fun ⟨_, h, _⟩ => nomatch h) fun ⟨_, h⟩ => nomatch h
    | .ok filter =>
      simp only [Except.ok.injEq, exists_eq_left', if_neg Bool.false_ne_true]
      match ep.query entry.2 [filter] with
      | .error _ => exact iff_of_false (fun ⟨_, h⟩ => nomatch h) fun ⟨_, h⟩ => nomatch h
      | .ok events => exact ⟨fun _ => ⟨events, rfl⟩, fun _ => ⟨events, rfl⟩⟩

theorem not_skipped_of_asked (h : ep.AskedOfRelays flat walk now cells entry) :
    ¬ ep.Skipped flat walk now cells entry := by
  obtain ⟨hmesh, honly, hfirst⟩ := h
  rintro (hm | ⟨events, hevents, ho | ⟨hc, hne⟩⟩)
  · rw [hmesh] at hm
    exact nomatch hm
  · rw [honly] at ho
    exact nomatch ho
  · exact hfirst ⟨hc, events, hevents, hne⟩

theorem asked_iff (h : ¬ ep.Skipped flat walk now cells entry) :
    ep.AskedOfRelays flat walk now cells entry ↔
      (entry.1.cacheOnly = true → entry.1.meshOnly = false → ep.CanLookUp walk entry) := by
  have hmesh : entry.1.meshOnly = false := Bool.eq_false_iff.mpr fun hm => h (.inl hm)
  have hfound : ep.CanLookUp walk entry ↔ ∃ events, ep.found flat walk now cells entry =
    some events := canLookUp_iff hmesh
  rw [hfound]
  constructor
  · intro hasked honly
    rw [hasked.2.1] at honly
    exact nomatch honly
  · intro hlook
    refine ⟨hmesh, Bool.eq_false_iff.mpr fun honly => ?_, fun ⟨hfirst, events, hevents, hne⟩ =>
      h (.inr ⟨events, hevents, .inr ⟨hfirst, hne⟩⟩)⟩
    obtain ⟨events, hevents⟩ := hlook honly hmesh
    exact h (.inr ⟨events, hevents, .inl honly⟩)

def isEnvelope : CacheSend → Bool
  | .envelope _ _ => true
  | .response _ _ => false

theorem countP_answer (subId : String) (c : Prop) [Decidable c] (payload : Bytes)
    (asked : List (FbRequest × ℕ)) :
    ((if c then [CacheSend.response subId payload] else []) ++
      asked.map (fun entry : FbRequest × ℕ => ep.reqEnvelope subId entry.1) ++
      [CacheSend.response subId []]).countP isEnvelope = asked.length := by
  have hreqs : (asked.map fun entry => ep.reqEnvelope subId entry.1).countP isEnvelope =
      asked.length := by
    rw [countP_map]
    exact List.countP_eq_length.mpr fun _ _ => rfl
  have hbatch : (if c then [CacheSend.response subId payload] else []).countP isEnvelope = 0 := by
    by_cases hc : c
    · rw [if_pos hc]
      rfl
    · rw [if_neg hc]
      rfl
  rw [countP_append, countP_append, hreqs, hbatch, Nat.zero_add]
  rfl

/-- **The answer is as it should be** when every request for the cache alone is looked up,
and only then. -/
theorem answersAsAsked_iff (ep : CacheEndpoint) (flat : FlatBuffers) (walk : IterOrder String)
    (req : CacheRequest) (now : ℕ → ℕ) (hclock : Monotone now) (cells : CacheCells)
    (hclient : ep.ServesClient cells) (hmsg : ep.AnswersMessages) :
    ep.AnswersAsAsked flat walk req now cells ↔ ∀ entry ∈ req.requests.zipIdx,
      entry.1.cacheOnly = true → entry.1.meshOnly = false → ep.CanLookUp walk entry := by
  have hrun : Answered ep flat walk req now cells (ep.deliveredBefore req cells)
      req.requests.zipIdx _ := answered_run hclock
  have hanswer : (ep.answer flat walk req now cells).1 = _ ++ (if ep.hasUpstream = true then _ else _)
    ++ _ := rfl
  rw [if_pos hclient.1] at hanswer
  generalize req.requests.zipIdx.foldl (ep.queryOne flat walk req now)
    { cells := ep.registerWatch req cells, skip := ∅, cached := [] } = loop at hrun hanswer
  -- a request is in the list once, so the index tells whether it was skipped
  have hskip : ∀ entry ∈ req.requests.zipIdx,
      (entry.2 ∉ loop.skip ↔ ¬ ep.Skipped flat walk now cells entry) := by
    intro entry hentry
    rw [hrun.skip, not_iff_not]
    constructor
    · rintro ⟨entry', hentry', hindex, hskipped⟩
      have hget := mem_zipIdx_iff_getElem?.mp hentry
      rw [← hindex, mem_zipIdx_iff_getElem?.mp hentry'] at hget
      rwa [Prod.ext (Option.some.inj hget) hindex] at hskipped
    · exact fun hskipped => ⟨entry, hentry, rfl, hskipped⟩
  have hsub : (req.requests.zipIdx.filter fun entry => entry.2 ∉ loop.skip).filter
      (fun entry => ep.AskedOfRelays flat walk now cells entry) =
        req.requests.zipIdx.filter fun entry => ep.AskedOfRelays flat walk now cells entry := by
    rw [filter_filter]
    refine filter_congr fun entry hentry => ?_
    rw [Bool.and_eq_left_iff_imp, decide_eq_true_eq, decide_eq_true_eq, hskip entry hentry]
    exact not_skipped_of_asked
  constructor
  · -- the relays get as many envelopes as they should, so they get the same
    rintro ⟨batch, hsends, -⟩ entry hentry
    have hcount := congrArg (List.countP isEnvelope) (hanswer.symm.trans hsends)
    rw [countP_answer, countP_answer, ← hsub] at hcount
    have hall := List.length_filter_eq_length_iff.mp hcount.symm
    intro honly hmesh
    by_contra hno
    have hnot : ¬ ep.Skipped flat walk now cells entry := by
      rintro (hm | ⟨events, hevents, -⟩)
      · rw [hmesh] at hm
        exact nomatch hm
      · exact hno ((canLookUp_iff hmesh).mpr ⟨events, hevents⟩)
    have hasked := hall entry (List.mem_filter.mpr
      ⟨hentry, decide_eq_true ((hskip entry hentry).mpr hnot)⟩)
    exact hno ((asked_iff hnot).mp (of_decide_eq_true hasked) honly hmesh)
  · intro hlook
    have hall : (req.requests.zipIdx.filter fun entry => entry.2 ∉ loop.skip) =
        req.requests.zipIdx.filter fun entry => ep.AskedOfRelays flat walk now cells entry := by
      rw [← hsub, eq_comm, filter_eq_self]
      intro entry hmem
      obtain ⟨hentry, hkept⟩ := List.mem_filter.mp hmem
      exact decide_eq_true ((asked_iff ((hskip entry hentry).mp (of_decide_eq_true hkept))).mpr
        (hlook entry hentry))
    refine ⟨loop.cached, by rw [hanswer, hall], unpack_frameLog fun event hevent => ?_,
      fun entry hentry events hevents event hevent => ?_, hrun.only⟩
    · obtain ⟨entry, -, events, hevents, hmem⟩ := hrun.only event hevent
      obtain ⟨answer, hanswered, hsubset⟩ := found_eq_some hevents
      exact message_of_lookUp hmsg hanswered (hsubset event hmem)
    · obtain hcached | ⟨⟨hmesh, hkeep⟩, id, hid, hbefore | ⟨event', hmem, hid'⟩⟩ :=
        hrun.sent entry hentry events hevents event hevent
      · exact .inl hcached
      · have hfb : entry.1 ∈ req.requests := fst_mem_of_mem_zipIdx hentry
        rw [watch_registerWatch hclient ⟨entry.1, hfb, hmesh⟩ hkeep] at hbefore
        exact absurd hbefore (Finset.notMem_empty id)
      · exact .inr ⟨event', hmem, id, hid, hid'⟩

theorem servesClient_client (query : ℕ → List Filter → Except StorageError (List Bytes))
    (getRelays : FbRequest → Option (List String)) (meshTtl : Option MeshTtlIndex) :
    (client query getRelays).ServesClient { watches := none, meshTtl := meshTtl } :=
  ⟨rfl, .inr rfl⟩

theorem servesClient_clientWithMesh
    (query meshQuery : ℕ → List Filter → Except StorageError (List Bytes))
    (getRelays : FbRequest → Option (List String)) (cells : CacheCells) :
    (clientWithMesh query meshQuery getRelays).ServesClient cells :=
  ⟨rfl, .inl rfl⟩

theorem countP_mesh (meshQuery : ℕ → List Filter → Except StorageError (List Bytes))
    (getRelays : FbRequest → Option (List String)) :
    (((mesh meshQuery getRelays).answer flat walk req now cells).1).countP isEnvelope = 0 := by
  have hanswer : ((mesh meshQuery getRelays).answer flat walk req now cells).1 =
    _ ++ (if false = true then _ else []) ++ _ := rfl
  rw [hanswer, if_neg Bool.false_ne_true]
  have hcount : ∀ (c : Prop) [Decidable c] (payload : Bytes),
      ((if c then [CacheSend.response req.subId payload] else []) ++
        ([] : List (FbRequest × ℕ)).map (fun entry : FbRequest × ℕ =>
          (mesh meshQuery getRelays).reqEnvelope req.subId entry.1) ++
        [CacheSend.response req.subId []]).countP isEnvelope = 0 :=
    fun c _ payload => countP_answer req.subId c payload []
  exact hcount _ _

theorem answersMessages_nostrDb {known : List Event} (hempty : flat.RejectsEmpty)
    (hsize : ∀ bytes ev, flat.storedEvent bytes = some ev → bytes.length < 2 ^ 32)
    (hdet : DeterminedIds known) {dbs : ℕ → NostrDB} (hdbs : ∀ i, (dbs i).ReadsEvents flat known)
    (order : IterOrder EventKey) (sel : SelectNth (ℕ × ℕ) survivorTime)
    (getRelays : FbRequest → Option (List String)) :
    (client (fun i filters => .ok ((dbs i).queryFilters flat order sel filters))
      getRelays).AnswersMessages := by
  intro query hquery q hq i filters events hevents event hevent
  obtain rfl | hnone := List.mem_cons.mp hquery
  · obtain rfl := Option.some.inj hq
    obtain rfl := Except.ok.inj hevents
    rw [NostrDB.queryFilters] at hevent
    obtain ⟨filter, -, hmem⟩ := List.mem_flatMap.mp ((perm_sortDesc _ _).mem_iff.mp hevent)
    obtain ⟨result, hresult, -, hread⟩ :=
      (hdbs i).query hdet order sel (filterToQueryFilter filter)
    rw [hresult] at hmem
    obtain ⟨ev, hev, -⟩ := hread event hmem
    refine ⟨?_, hsize event ev hev⟩
    rintro rfl
    rw [FlatBuffers.storedEvent, FlatBuffers.storedMessage, hempty.workerMessage,
      hempty.parsedEvent, hempty.nostrEvent] at hev
    contradiction
  · rw [List.mem_singleton.mp hnone] at hq
    contradiction

end CacheEndpoint

def cacheOnlyRequest : FbRequest := { anyRequest with cacheOnly := true }

/-- One for the cache alone, with an author that is not in hexadecimal. -/
def namedAuthorRequest : FbRequest := { cacheOnlyRequest with authors := some ["alice"] }

def noteEndpoint : CacheEndpoint := .client (fun _ _ => .ok [noteBytes]) fun _ => none

def noMeshCells : CacheCells := { watches := none, meshTtl := none }

/-- A request for the cache alone and one for anyone, answered as they should be. -/
theorem answersAsAsked_cacheOnly : noteEndpoint.AnswersAsAsked noteReaders (.entries _)
    { subId := "s"
      requests := [cacheOnlyRequest, anyRequest]
      keepMeshWatch := true } (fun i => i) noMeshCells := by
  refine (CacheEndpoint.answersAsAsked_iff noteEndpoint noteReaders (.entries _) _ (fun i => i)
    (fun _ _ h => h) noMeshCells ⟨rfl, .inr rfl⟩ ?_).mpr ?_
  · intro query hquery q hq i filters events hevents event hevent
    obtain rfl | hnone := List.mem_cons.mp hquery
    · obtain rfl := Option.some.inj hq
      obtain rfl := Except.ok.inj hevents
      obtain rfl := List.mem_singleton.mp hevent
      exact ⟨by decide, by decide +kernel⟩
    · rw [List.mem_singleton.mp hnone] at hq
      exact nomatch hq
  · intro entry hentry _ _
    have hlook : ∀ fb : FbRequest, fb = cacheOnlyRequest ∨ fb = anyRequest → ∀ i,
        noteEndpoint.CanLookUp (.entries _) (fb, i) := by
      rintro fb (rfl | rfl) i
      · exact ⟨rfl, _, rfl, _, rfl⟩
      · exact ⟨rfl, _, rfl, _, rfl⟩
    exact hlook entry.1 (List.mem_pair.mp (fst_mem_of_mem_zipIdx hentry)) entry.2

/-- **A request for the cache alone goes to the relays** when its author is no hexadecimal
key: it is passed over before it is marked. -/
theorem namedAuthor_forwarded : ¬ noteEndpoint.AnswersAsAsked noteReaders (.entries _)
    { subId := "s"
      requests := [namedAuthorRequest]
      keepMeshWatch := true } (fun i => i) noMeshCells := by
  rintro ⟨batch, hsends, -⟩
  have hcount := congrArg (List.countP CacheEndpoint.isEnvelope) hsends
  rw [CacheEndpoint.countP_answer] at hcount
  have hnone : ∀ entry ∈ [namedAuthorRequest].zipIdx, ¬ noteEndpoint.AskedOfRelays noteReaders
      (.entries _) (fun i => i) noMeshCells entry := by
    intro entry hentry hasked
    obtain rfl := List.mem_singleton.mp hentry
    exact nomatch hasked.2.1
  rw [List.filter_eq_nil_iff.mpr fun entry hentry => by
    rw [decide_eq_true_eq]
    exact hnone entry hentry] at hcount
  exact nomatch hcount

end Nipworker
