/-
NIP-77 sessions between two peers (`crates/mesh/src/session.rs`).

A `PeerSession` keeps one reconciler for each subscription.  The initiator of a
sync takes the answers of the other side one `NEG-MSG` at a time and delivers a
`SyncDifference` with the last one.  The lists it gives to the crate are new in
every round, so only the ids of the last round reach the difference.
-/
import Nipworker.Mesh.Reconcile

namespace Nipworker

open List

/-- The side of a reconciliation a peer is on. -/
inductive SyncState (Reconciler : Type)
  | initiator (reconciler : Reconciler)
  | responder (reconciler : Reconciler)

/-- The reconciliations with one peer. -/
structure PeerSession (Reconciler : Type) where
  syncs : Map String (SyncState Reconciler)

/-- The ids to send, and the ids to ask for. -/
structure SyncDifference where
  haveIds : List String
  needIds : List String
  deriving DecidableEq, Repr

/-- Frames for the peer, and the end of a reconciliation. -/
structure SessionOutput where
  frames : List NostrFrame
  completed : Option SyncDifference

def decodePayload (value : Option Value) : Except MeshError Bytes :=
  match value.bind Value.asStr with
  | none => .error .invalidFrame
  | some encoded =>
    match Hex.decode encoded with
    | some bytes => .ok bytes
    | none => .error .invalidFrame

namespace PeerSession

variable {Id Storage Reconciler : Type} (n : Negentropy Id Storage Reconciler)

/-- `PeerSession::begin_sync`, on the events of the store. -/
def beginSync (self : PeerSession Reconciler) (subscriptionId : String) (filter : Value)
    (events : List CanonicalEvent) : Except MeshError (NostrFrame × PeerSession Reconciler) := do
  let storage ← n.storage events
  let reconciler ← Negentropy.lift (n.owned storage negentropyFrameSizeLimit)
  let (initial, reconciler) ← Negentropy.lift (n.initiate reconciler)
  return (.negOpen subscriptionId filter initial,
    ⟨self.syncs.insert subscriptionId (.initiator reconciler)⟩)

/-- The `NEG-OPEN` arm of `handle`. -/
def handleOpen (self : PeerSession Reconciler) (subscriptionId : String) (array : List Value)
    (events : List CanonicalEvent) :
    Except MeshError (SessionOutput × PeerSession Reconciler) := do
  let payload ← decodePayload array[3]?
  let storage ← n.storage events
  let reconciler ← Negentropy.lift (n.owned storage negentropyFrameSizeLimit)
  let (response, reconciler) ← Negentropy.lift (n.reconcile reconciler payload)
  return (⟨[.negMsg subscriptionId response], none⟩,
    ⟨self.syncs.insert subscriptionId (.responder reconciler)⟩)

/-- The `NEG-MSG` arm of `handle`. -/
def handleMsg (self : PeerSession Reconciler) (subscriptionId : String) (array : List Value) :
    Except MeshError (SessionOutput × PeerSession Reconciler) := do
  let payload ← decodePayload array[2]?
  match self.syncs.lookup subscriptionId with
  | none => .error (.unknownSession subscriptionId)
  | some (.initiator reconciler) =>
    -- `have` and `need` start empty in every round
    let (query, haveIds, needIds, reconciler) ←
      Negentropy.lift (n.reconcileWithIds reconciler payload)
    match query with
    | some next =>
      return (⟨[.negMsg subscriptionId next], none⟩,
        ⟨self.syncs.insert subscriptionId (.initiator reconciler)⟩)
    | none =>
      return (⟨[.negClose subscriptionId],
          some ⟨n.idsToHex ([] ++ haveIds), n.idsToHex ([] ++ needIds)⟩⟩,
        ⟨self.syncs.erase subscriptionId⟩)
  | some (.responder reconciler) =>
    let (response, reconciler) ← Negentropy.lift (n.reconcile reconciler payload)
    return (⟨[.negMsg subscriptionId response], none⟩,
      ⟨self.syncs.insert subscriptionId (.responder reconciler)⟩)

/-- `PeerSession::handle`; after an error the reconciler is left to the crate. -/
def handle (self : PeerSession Reconciler) (frame : NostrFrame) (events : List CanonicalEvent) :
    Except MeshError (SessionOutput × PeerSession Reconciler) :=
  match frame.json with
  | none => .error .json
  | some value =>
    match value.asArray with
    | none => .error .invalidFrame
    | some array =>
      match array.head?.bind Value.asStr, array[1]?.bind Value.asStr with
      | some kind, some subscriptionId =>
        if kind = "NEG-OPEN" then handleOpen n self subscriptionId array events
        else if kind = "NEG-MSG" then handleMsg n self subscriptionId array
        else if kind = "NEG-CLOSE" then
          .ok (⟨[], none⟩, ⟨self.syncs.erase subscriptionId⟩)
        else .error (.unexpectedSessionMessage kind)
      | _, _ => .error .invalidFrame

end PeerSession

section Conversation

variable {Id Storage Reconciler : Type} (n : Negentropy Id Storage Reconciler)

/-- Two sessions talk: the other side answers a frame of the initiator, and the
initiator takes the answer, until it delivers a difference. -/
inductive Conversation (mine theirs : List CanonicalEvent) :
    PeerSession Reconciler → PeerSession Reconciler → NostrFrame → SyncDifference → Prop
  | done {a b a' b' : PeerSession Reconciler} {frame answer : NostrFrame}
      {outA outB : SessionOutput} {diff : SyncDifference}
      (hb : b.handle n frame theirs = .ok (outB, b')) (hanswer : outB.frames = [answer])
      (ha : a.handle n answer mine = .ok (outA, a')) (hdiff : outA.completed = some diff) :
      Conversation mine theirs a b frame diff
  | again {a b a' b' : PeerSession Reconciler} {frame answer frame' : NostrFrame}
      {outA outB : SessionOutput} {diff : SyncDifference}
      (hb : b.handle n frame theirs = .ok (outB, b')) (hanswer : outB.frames = [answer])
      (ha : a.handle n answer mine = .ok (outA, a')) (hnone : outA.completed = none)
      (hframe : outA.frames = [frame']) (hrest : Conversation mine theirs a' b' frame' diff) :
      Conversation mine theirs a b frame diff

/-- A sync begun with `begin_sync` delivers `diff`. -/
def Syncs (subscriptionId : String) (filter : Value) (mine theirs : List CanonicalEvent)
    (a b : PeerSession Reconciler) (diff : SyncDifference) : Prop :=
  ∃ frame a', a.beginSync n subscriptionId filter mine = .ok (frame, a')
    ∧ Conversation n mine theirs a' b frame diff

/-- The two lists of a difference are the two differences of the stores. -/
def SyncDifference.Exact (mine theirs : List CanonicalEvent) (diff : SyncDifference) : Prop :=
  (∀ text, text ∈ diff.haveIds
    ↔ ∃ id, (id ∈ n.ids mine ∧ id ∉ n.ids theirs) ∧ text = Hex.encode (n.toBytes id))
  ∧ ∀ text, text ∈ diff.needIds
    ↔ ∃ id, (id ∈ n.ids theirs ∧ id ∉ n.ids mine) ∧ text = Hex.encode (n.toBytes id)

/-- What an earlier round reports, the last round reports again. -/
def FoundAtLast (rounds : List (Round Id)) : Prop :=
  ∀ last, rounds.getLast? = some last → ∀ round ∈ rounds,
    (∀ id ∈ round.haveIds, id ∈ last.haveIds) ∧ ∀ id ∈ round.needIds, id ∈ last.needIds

/-! ### One frame -/

variable {n} {subscriptionId : String} {mine theirs : List CanonicalEvent}
  {a b : PeerSession Reconciler} {ra rb : Reconciler} {query response : Bytes}

theorem decodePayload_encode (payload : Bytes) :
    decodePayload (some (.string (Hex.encode payload))) = .ok payload := by
  simp only [decodePayload, Option.bind_some, Value.asStr, Hex.decode_encode]

theorem handle_negMsg (self : PeerSession Reconciler) (payload : Bytes)
    (events : List CanonicalEvent) :
    self.handle n (.negMsg subscriptionId payload) events
      = self.handleMsg n subscriptionId
        [.string "NEG-MSG", .string subscriptionId, .string (Hex.encode payload)] :=
  rfl

theorem handle_responder {rb' : Reconciler}
    (hlookup : b.syncs.lookup subscriptionId = some (.responder rb))
    (hresponse : n.reconcile rb query = .ok (response, rb')) :
    b.handle n (.negMsg subscriptionId query) theirs
      = .ok (⟨[.negMsg subscriptionId response], none⟩,
        ⟨b.syncs.insert subscriptionId (.responder rb')⟩) := by
  rw [handle_negMsg]
  simp [PeerSession.handleMsg, decodePayload_encode, hlookup, hresponse, Negentropy.lift, bind,
    Except.bind, pure, Except.pure]

theorem handle_open {filter : Value} {storage : Storage} {rb' : Reconciler}
    (hstorage : n.storage theirs = .ok storage)
    (howned : n.owned storage negentropyFrameSizeLimit = .ok rb)
    (hresponse : n.reconcile rb query = .ok (response, rb')) :
    b.handle n (.negOpen subscriptionId filter query) theirs
      = .ok (⟨[.negMsg subscriptionId response], none⟩,
        ⟨b.syncs.insert subscriptionId (.responder rb')⟩) := by
  show b.handleOpen n subscriptionId
    [.string "NEG-OPEN", .string subscriptionId, filter, .string (Hex.encode query)] theirs = _
  simp [PeerSession.handleOpen, decodePayload_encode, hstorage, howned, hresponse, Negentropy.lift,
    bind, Except.bind, pure, Except.pure]

theorem handle_next {ra' : Reconciler} {query' : Bytes} {haveIds needIds : List Id}
    (hlookup : a.syncs.lookup subscriptionId = some (.initiator ra))
    (hids : n.reconcileWithIds ra response = .ok (some query', haveIds, needIds, ra')) :
    a.handle n (.negMsg subscriptionId response) mine
      = .ok (⟨[.negMsg subscriptionId query'], none⟩,
        ⟨a.syncs.insert subscriptionId (.initiator ra')⟩) := by
  rw [handle_negMsg]
  simp [PeerSession.handleMsg, decodePayload_encode, hlookup, hids, Negentropy.lift, bind,
    Except.bind, pure, Except.pure]

theorem handle_done {ra' : Reconciler} {haveIds needIds : List Id}
    (hlookup : a.syncs.lookup subscriptionId = some (.initiator ra))
    (hids : n.reconcileWithIds ra response = .ok (none, haveIds, needIds, ra')) :
    a.handle n (.negMsg subscriptionId response) mine
      = .ok (⟨[.negClose subscriptionId], some ⟨n.idsToHex haveIds, n.idsToHex needIds⟩⟩,
        ⟨a.syncs.erase subscriptionId⟩) := by
  rw [handle_negMsg]
  simp [PeerSession.handleMsg, decodePayload_encode, hlookup, hids, Negentropy.lift, bind,
    Except.bind, pure, Except.pure]

/-! ### A whole conversation -/

variable {rounds : List (Round Id)} {frame : NostrFrame} {diff : SyncDifference}

variable (n subscriptionId theirs) in
/-- The session `b` answers `frame` as its reconciler `rb` answers `query`. -/
def Answers (b : PeerSession Reconciler) (frame : NostrFrame) (rb : Reconciler) (query : Bytes) :
    Prop :=
  ∀ response rb', n.reconcile rb query = .ok (response, rb') →
    b.handle n frame theirs = .ok (⟨[.negMsg subscriptionId response], none⟩,
      ⟨b.syncs.insert subscriptionId (.responder rb')⟩)

theorem conversation_of_rounds (hrounds : n.Rounds ra rb query rounds) {last : Round Id}
    (hlast : rounds.getLast? = some last)
    (ha : a.syncs.lookup subscriptionId = some (.initiator ra))
    (hb : Answers n subscriptionId theirs b frame rb query) :
    Conversation n mine theirs a b frame
      ⟨n.idsToHex last.haveIds, n.idsToHex last.needIds⟩ := by
  induction hrounds generalizing a b frame with
  | last hresponse hids =>
    rw [List.getLast?_singleton, Option.some.injEq] at hlast
    subst hlast
    exact .done (hb _ _ hresponse) rfl (handle_done ha hids) rfl
  | next hresponse hids hrest ih =>
    rw [List.getLast?_cons_of_ne_nil hrest.ne_nil] at hlast
    refine .again (hb _ _ hresponse) rfl (handle_next ha hids) rfl rfl (ih hlast ?_ ?_)
    · exact AList.lookup_insert _
    · intro response' rb'' hresponse'
      exact handle_responder (AList.lookup_insert _) hresponse'

/-- The difference delivered at the end of a conversation is what the last round reports. -/
theorem Conversation.eq_last (h : Conversation n mine theirs a b frame diff)
    (hrounds : n.Rounds ra rb query rounds) {last : Round Id}
    (hlast : rounds.getLast? = some last)
    (ha : a.syncs.lookup subscriptionId = some (.initiator ra))
    (hb : Answers n subscriptionId theirs b frame rb query) :
    diff = ⟨n.idsToHex last.haveIds, n.idsToHex last.needIds⟩ := by
  induction hrounds generalizing a b frame with
  | last hresponse hids =>
    rw [List.getLast?_singleton, Option.some.injEq] at hlast
    subst hlast
    have hansw := hb _ _ hresponse
    have hdone : a.handle n _ mine = _ := handle_done ha hids
    cases h with
    | done hb' hanswer ha' hdiff =>
      obtain ⟨rfl, rfl⟩ := Prod.mk.inj (Except.ok.inj (hansw.symm.trans hb'))
      obtain rfl := head_eq_of_cons_eq hanswer
      obtain ⟨rfl, -⟩ := Prod.mk.inj (Except.ok.inj (hdone.symm.trans ha'))
      exact (Option.some.inj hdiff).symm
    | again hb' hanswer ha' hnone =>
      obtain ⟨rfl, rfl⟩ := Prod.mk.inj (Except.ok.inj (hansw.symm.trans hb'))
      obtain rfl := head_eq_of_cons_eq hanswer
      obtain ⟨rfl, -⟩ := Prod.mk.inj (Except.ok.inj (hdone.symm.trans ha'))
      cases hnone
  | next hresponse hids hrest ih =>
    rw [List.getLast?_cons_of_ne_nil hrest.ne_nil] at hlast
    have hansw := hb _ _ hresponse
    have hnext : a.handle n _ mine = _ := handle_next ha hids
    cases h with
    | done hb' hanswer ha' hdiff =>
      obtain ⟨rfl, rfl⟩ := Prod.mk.inj (Except.ok.inj (hansw.symm.trans hb'))
      obtain rfl := head_eq_of_cons_eq hanswer
      obtain ⟨rfl, -⟩ := Prod.mk.inj (Except.ok.inj (hnext.symm.trans ha'))
      cases hdiff
    | again hb' hanswer ha' _ hframe hconv =>
      obtain ⟨rfl, rfl⟩ := Prod.mk.inj (Except.ok.inj (hansw.symm.trans hb'))
      obtain rfl := head_eq_of_cons_eq hanswer
      obtain ⟨rfl, rfl⟩ := Prod.mk.inj (Except.ok.inj (hnext.symm.trans ha'))
      obtain rfl := head_eq_of_cons_eq hframe
      exact ih hconv hlast (AList.lookup_insert _)
        fun _ _ hresponse' => handle_responder (AList.lookup_insert _) hresponse'

/-- A sync of two sessions delivers one difference: what the last round of the
crate's reconciliation of the two stores reports. -/
theorem syncs_iff {filter : Value} {last : Round Id} (hrun : n.Reconciles mine theirs rounds)
    (hlast : rounds.getLast? = some last) :
    Syncs n subscriptionId filter mine theirs a b diff
      ↔ diff = ⟨n.idsToHex last.haveIds, n.idsToHex last.needIds⟩ := by
  obtain ⟨ra, rb, query, ⟨⟨storage, reconciler, hs, ho, hi⟩, ⟨storage', hs', ho'⟩⟩, hrounds⟩ :=
    hrun
  have hbegin : a.beginSync n subscriptionId filter mine
      = .ok (.negOpen subscriptionId filter query,
        ⟨a.syncs.insert subscriptionId (.initiator ra)⟩) := by
    simp [PeerSession.beginSync, hs, ho, hi, Negentropy.lift, bind, Except.bind, pure,
      Except.pure]
  have hanswers : Answers n subscriptionId theirs b (.negOpen subscriptionId filter query) rb
      query := fun _ _ hresponse => handle_open hs' ho' hresponse
  constructor
  · rintro ⟨frame, a', hbegin', hconv⟩
    obtain ⟨rfl, rfl⟩ := Prod.mk.inj (Except.ok.inj (hbegin.symm.trans hbegin'))
    exact hconv.eq_last hrounds hlast (AList.lookup_insert _) hanswers
  · rintro rfl
    exact ⟨_, _, hbegin, conversation_of_rounds hrounds hlast (AList.lookup_insert _) hanswers⟩

theorem idsToHex_exact_iff {ids : List Id} {p : Id → Prop} :
    (∀ text, text ∈ n.idsToHex ids ↔ ∃ id, p id ∧ text = Hex.encode (n.toBytes id))
      ↔ ∀ id, id ∈ ids ↔ p id := by
  constructor
  · intro h id
    rw [← Negentropy.mem_idsToHex (n := n), h]
    constructor
    · rintro ⟨id', hp, heq⟩
      have hdecode := congrArg Hex.decode heq
      rw [Hex.decode_encode, Hex.decode_encode] at hdecode
      rwa [n.toBytes_injective (Option.some.inj hdecode)]
    · intro hp
      exact ⟨id, hp, rfl⟩
  · intro h text
    rw [Negentropy.idsToHex, mem_map]
    constructor
    · rintro ⟨id, hmem, rfl⟩
      exact ⟨id, (h id).mp hmem, rfl⟩
    · rintro ⟨id, hp, rfl⟩
      exact ⟨id, (h id).mpr hp, rfl⟩

/-- **Finding the whole difference.**  When the crate reconciles two stores in
`rounds` and reports over all of them the two set differences, the lists of
`MeshNode::reconcile_with` are these differences.  A sync of two sessions also
comes to its end; the difference it delivers is the one of the stores exactly
when the last round repeats all that the earlier ones have reported. -/
theorem syncDifference_exact_iff (hrun : n.Reconciles mine theirs rounds)
    (hfinds : n.Finds mine theirs rounds) (subscriptionId : String) (filter : Value)
    (a b : PeerSession Reconciler) :
    ((∃ haveTexts needTexts, n.ReconcileWith mine theirs haveTexts needTexts)
      ∧ ∀ haveTexts needTexts, n.ReconcileWith mine theirs haveTexts needTexts →
        SyncDifference.Exact n mine theirs ⟨haveTexts, needTexts⟩)
    ∧ (∃ diff, Syncs n subscriptionId filter mine theirs a b diff)
    ∧ ∀ diff, Syncs n subscriptionId filter mine theirs a b diff →
        (diff.Exact n mine theirs ↔ FoundAtLast rounds) := by
  obtain ⟨ra, rb, query, hstarts, hrounds⟩ := id hrun
  obtain ⟨last, hlast⟩ : ∃ last, rounds.getLast? = some last :=
    ⟨_, List.getLast?_eq_some_getLast hrounds.ne_nil⟩
  have hmem : last ∈ rounds := mem_of_getLast? hlast
  refine ⟨⟨?_, ?_⟩, ?_, ?_⟩
  · exact ⟨_, _, ra, rb, query, _, _, hstarts, Negentropy.reconcileLoop_of_rounds hrounds [] [],
      rfl, rfl⟩
  · rintro _ _ ⟨ra', rb', query', haveIds, needIds, hstarts', hloop, rfl, rfl⟩
    obtain ⟨rfl, rfl, rfl⟩ := hstarts.unique hstarts'
    obtain ⟨rfl, rfl⟩ := hloop.eq_append hrounds
    exact ⟨idsToHex_exact_iff.mpr hfinds.haveIds, idsToHex_exact_iff.mpr hfinds.needIds⟩
  · exact ⟨_, (syncs_iff hrun hlast).mpr rfl⟩
  · intro diff hdiff
    rw [syncs_iff hrun hlast] at hdiff
    subst hdiff
    rw [SyncDifference.Exact, idsToHex_exact_iff, idsToHex_exact_iff]
    constructor
    · rintro ⟨hhave, hneed⟩ last' hlast' round hround
      obtain rfl := Option.some.inj (hlast.symm.trans hlast')
      constructor
      · intro id hid
        exact (hhave id).mpr ((hfinds.haveIds id).mp (List.mem_flatMap.mpr ⟨round, hround, hid⟩))
      · intro id hid
        exact (hneed id).mpr ((hfinds.needIds id).mp (List.mem_flatMap.mpr ⟨round, hround, hid⟩))
    · intro hfound
      constructor
      · intro id
        rw [← hfinds.haveIds id, mem_flatMap]
        constructor
        · exact fun hid => ⟨last, hmem, hid⟩
        · rintro ⟨round, hround, hid⟩
          exact (hfound last hlast round hround).1 id hid
      · intro id
        rw [← hfinds.needIds id, mem_flatMap]
        constructor
        · exact fun hid => ⟨last, hmem, hid⟩
        · rintro ⟨round, hround, hid⟩
          exact (hfound last hlast round hround).2 id hid

end Conversation

/-! ### A difference of more than one frame -/

/-- A reconciler that holds ids and has sent some of them. -/
structure PagedReconciler where
  ids : List Bytes
  sent : ℕ
  deriving DecidableEq, Repr

/-- The crate as it answers an initiator without events: the responder lists its
ids, and with frames of 4096 bytes it stops after 122 of them and lists the
others when it is asked again.  The first byte of an answer says whether there
are more. -/
def paged : Negentropy Bytes (List (ℕ × Bytes)) PagedReconciler where
  fromSlice bytes := if bytes.length = 32 then .ok bytes else .error "invalid id size"
  toBytes id := id
  toBytes_injective _ _ h := h
  sealed items := .ok items
  owned storage _ := .ok ⟨storage.map Prod.snd, 0⟩
  initiate reconciler := .ok ([0x61], reconciler)
  reconcile reconciler _ :=
    let more : UInt8 := if reconciler.ids.length ≤ reconciler.sent + 122 then 0 else 1
    .ok (more :: ((reconciler.ids.drop reconciler.sent).take 122).flatten,
      { reconciler with sent := reconciler.sent + 122 })
  reconcileWithIds reconciler response :=
    match response with
    | [] => .error "empty message"
    | more :: ids =>
      .ok (if more = 0 then none else some [0x61], [],
        (chunks 32 ids).filter fun id => id ∉ reconciler.ids, reconciler)

/-- The id of event number `i`. -/
def peerId (i : ℕ) : Bytes := List.replicate 32 (UInt8.ofNat i)

/-- Event number `i` of a peer. -/
def peerEvent (i : ℕ) : CanonicalEvent where
  id := Hex.encode (peerId i)
  pubkey := ""
  createdAt := i
  kind := 0
  tags := []
  content := ""
  sig := ""

/-- A store with `count` events. -/
def peerStore (count : ℕ) : List CanonicalEvent := (List.range count).map peerEvent

theorem paged_negentropyId (i : ℕ) : paged.negentropyId (peerEvent i) = .ok (peerId i) := by
  have hlen : (peerId i).length = 32 := length_replicate
  rw [Negentropy.negentropyId, show (peerEvent i).id = Hex.encode (peerId i) from rfl,
    Hex.decode_encode]
  simp only [paged, if_pos hlen, Negentropy.lift]

theorem paged_ids (count : ℕ) : paged.ids (peerStore count) = (List.range count).map peerId := by
  rw [Negentropy.ids, peerStore, filterMap_map]
  show List.filterMap (fun i => (paged.negentropyId (peerEvent i)).toOption) _ = _
  simp only [paged_negentropyId, Except.toOption]
  exact congrFun filterMap_eq_map' _

theorem paged_storage (count : ℕ) :
    paged.storage (peerStore count)
      = .ok ((List.range count).map fun i => (i, peerId i)) := by
  have hmapM : ∀ l : List ℕ, (l.map peerEvent).mapM (fun event => do
      return (event.createdAt, ← paged.negentropyId event))
      = Except.ok (l.map fun i => (i, peerId i)) := by
    intro l
    induction l with
    | nil => rfl
    | cons i l ih =>
      rw [map_cons, mapM_cons, ih, paged_negentropyId]
      rfl
  rw [Negentropy.storage, peerStore, hmapM]
  rfl

theorem paged_starts (count : ℕ) :
    paged.Starts [] (peerStore count) ⟨[], 0⟩ ⟨(List.range count).map peerId, 0⟩ [0x61] where
  initiator := ⟨[], ⟨[], 0⟩, rfl, rfl, rfl⟩
  responder := by
    refine ⟨_, paged_storage count, ?_⟩
    show Except.ok (PagedReconciler.mk (List.map Prod.snd (List.map _ _)) 0) = _
    rw [map_map]
    rfl

theorem paged_page {page : List Bytes} (hpage : ∀ id ∈ page, id.length = 32) (more : UInt8) :
    paged.reconcileWithIds ⟨[], 0⟩ (more :: page.flatten)
      = .ok (if more = 0 then none else some [0x61], [], page, ⟨[], 0⟩) := by
  show Except.ok (_, _, (chunks 32 page.flatten).filter _, _) = _
  rw [chunks_flatten (by decide) hpage, List.filter_eq_self.mpr fun id _ => by simp]

theorem length_peerId {l : List ℕ} : ∀ id ∈ l.map peerId, id.length = 32 := by
  intro id hid
  obtain ⟨i, -, rfl⟩ := List.mem_map.mp hid
  exact length_replicate

theorem paged_rounds_one : paged.Reconciles [] (peerStore 1) [⟨[], [peerId 0]⟩] := by
  have hfirst : paged.reconcile ⟨(List.range 1).map peerId, 0⟩ [0x61]
      = .ok (0 :: ([0].map peerId).flatten, ⟨(List.range 1).map peerId, 122⟩) := rfl
  exact ⟨_, _, _, paged_starts 1, .last hfirst (paged_page length_peerId 0)⟩

theorem paged_rounds_two : paged.Reconciles [] (peerStore 123)
    [⟨[], (List.range 122).map peerId⟩, ⟨[], [peerId 122]⟩] := by
  have hfirst : paged.reconcile ⟨(List.range 123).map peerId, 0⟩ [0x61]
      = .ok (1 :: ((List.range 122).map peerId).flatten,
        ⟨(List.range 123).map peerId, 122⟩) := by
    show Except.ok ((if ((List.range 123).map peerId).length ≤ 122 then 0 else 1)
      :: (((List.range 123).map peerId).take 122).flatten, _) = _
    rw [length_map, length_range, if_neg (by decide), ← map_take, take_range,
      show min 122 123 = 122 from rfl]
  have hsecond : paged.reconcile ⟨(List.range 123).map peerId, 122⟩ [0x61]
      = .ok (0 :: ([122].map peerId).flatten, ⟨(List.range 123).map peerId, 244⟩) := by
    show Except.ok ((if ((List.range 123).map peerId).length ≤ 244 then 0 else 1)
      :: ((((List.range 123).map peerId).drop 122).take 122).flatten, _) = _
    rw [length_map, length_range, if_pos (by decide), ← map_drop, ← map_take,
      show ((List.range 123).drop 122).take 122 = [122] by decide]
  exact ⟨_, _, _, paged_starts 123, .next hfirst (paged_page length_peerId 1)
    (.last hsecond (paged_page length_peerId 0))⟩

theorem paged_finds {count : ℕ} {rounds : List (Round Bytes)}
    (hhave : rounds.flatMap Round.haveIds = [])
    (hneed : rounds.flatMap Round.needIds = (List.range count).map peerId) :
    paged.Finds [] (peerStore count) rounds where
  haveIds id := by
    rw [hhave]
    exact ⟨fun h => absurd h not_mem_nil, fun h => absurd h.1 not_mem_nil⟩
  needIds id := by
    rw [hneed, paged_ids]
    exact ⟨fun h => ⟨h, not_mem_nil⟩, fun h => h.1⟩

theorem syncDifference_oneEvent :
    ∃ diff, Syncs paged "sync" .null [] (peerStore 1) ⟨∅⟩ ⟨∅⟩ diff
      ∧ diff.Exact paged [] (peerStore 1) := by
  obtain ⟨-, ⟨diff, hdiff⟩, hexact⟩ := syncDifference_exact_iff paged_rounds_one
    (paged_finds rfl rfl) "sync" .null ⟨∅⟩ ⟨∅⟩
  refine ⟨diff, hdiff, (hexact diff hdiff).mpr ?_⟩
  intro last hlast round hround
  obtain rfl := Option.some.inj hlast
  obtain rfl := List.mem_singleton.mp hround
  exact ⟨fun id hid => hid, fun id hid => hid⟩

/-- A peer with 123 events and one without: the crate reports all ids in its two
rounds, and the difference that the session delivers has only the last one. -/
theorem sync_loses_first_round :
    paged.Reconciles [] (peerStore 123)
        [⟨[], (List.range 122).map peerId⟩, ⟨[], [peerId 122]⟩]
      ∧ paged.Finds [] (peerStore 123)
        [⟨[], (List.range 122).map peerId⟩, ⟨[], [peerId 122]⟩]
      ∧ Syncs paged "sync" .null [] (peerStore 123) ⟨∅⟩ ⟨∅⟩
        ⟨[], [Hex.encode (peerId 122)]⟩
      ∧ ¬ SyncDifference.Exact paged [] (peerStore 123) ⟨[], [Hex.encode (peerId 122)]⟩ := by
  refine ⟨paged_rounds_two, paged_finds rfl rfl, (syncs_iff paged_rounds_two rfl).mpr rfl, ?_⟩
  rintro ⟨-, hneed⟩
  -- the first event of the peer is missing
  have hmem : Hex.encode (peerId 0) ∈ [Hex.encode (peerId 122)] := by
    refine (hneed _).mpr ⟨peerId 0, ⟨?_, not_mem_nil⟩, rfl⟩
    rw [paged_ids]
    exact mem_map_of_mem (List.mem_range.mpr (by decide))
  have hdecode := congrArg Hex.decode (List.mem_singleton.mp hmem)
  rw [Hex.decode_encode, Hex.decode_encode] at hdecode
  exact absurd (Option.some.inj hdecode) (by decide)

end Nipworker
