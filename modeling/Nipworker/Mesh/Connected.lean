/-
Which peers the mesh runtime and its transport take for connected
(`crates/mesh/src/runtime.rs`, `crates/mesh/src/transport.rs`).

A peer gets its link first and its session last, and three steps between them may fail: the
query of the cache, the beginning of the reconciliation, and the sending of the opening frame.
A failure returns at once and leaves the link behind.  No other call makes or removes a session
or a link alone.
-/
import Nipworker.Mesh.Runtime

namespace Nipworker

open MeshCache

namespace MeshRuntime

variable {Id Storage Reconciler : Type} {crates : MeshCrates Id Storage Reconciler}
  {rt rt' rt'' : MeshRuntime Reconciler} {peerId : String} {channel : CacheChannel}

/-! ### Calls that leave the peers as they are -/

/-- The same peers have a session, and the same peers have a link. -/
structure SamePeers (rt rt' : MeshRuntime Reconciler) : Prop where
  peers : ∀ id, id ∈ rt'.peers ↔ id ∈ rt.peers
  links : rt.transport.SameLinks rt'.transport

theorem SamePeers.refl (rt : MeshRuntime Reconciler) : SamePeers rt rt :=
  ⟨fun _ => Iff.rfl, .refl _⟩

theorem SamePeers.trans (h : SamePeers rt rt') (h' : SamePeers rt' rt'') : SamePeers rt rt'' :=
  ⟨fun id => (h'.peers id).trans (h.peers id), h.links.trans h'.links⟩

theorem SamePeers.ofTransport {transport : MeshByteTransport}
    (h : rt.transport.SameLinks transport) : SamePeers rt { rt with transport := transport } :=
  ⟨fun _ => Iff.rfl, h⟩

theorem samePeers_setPeer {peer peer' : MeshPeer Reconciler}
    (h : rt.peers.lookup peerId = some peer) : SamePeers rt (rt.setPeer peerId peer') := by
  refine ⟨fun id => ?_, .refl _⟩
  show id ∈ rt.peers.insert peerId peer' ↔ _
  rw [AList.mem_insert]
  refine ⟨?_, .inr⟩
  rintro (rfl | hmem)
  · exact AList.lookup_isSome.mp (by rw [h]; rfl)
  · exact hmem

theorem query_state (rt : MeshRuntime Reconciler) (requests : List Request) :
    (rt.query crates channel requests).2
      = { rt with nextRequestId := (rt.nextRequestId + 1) % 2 ^ 64 } := by
  rw [query]
  by_cases htakes : channel.takes
      (.request ("mesh-cache:" ++ toString rt.nextRequestId) requests) = true
  · rw [if_pos htakes]
  · rw [if_neg htakes]

theorem query_answer (h : rt'.nextRequestId = rt.nextRequestId) (requests : List Request) :
    (rt'.query crates channel requests).1 = (rt.query crates channel requests).1 := by
  rw [query, query, h]
  by_cases htakes : channel.takes
      (.request ("mesh-cache:" ++ toString rt.nextRequestId) requests) = true
  · rw [if_pos htakes, if_pos htakes]
  · rw [if_neg htakes, if_neg htakes]

theorem samePeers_query (rt : MeshRuntime Reconciler) (requests : List Request) :
    SamePeers rt (rt.query crates channel requests).2 := by
  rw [query_state]
  exact ⟨fun _ => Iff.rfl, .refl _⟩

theorem samePeers_handleNegOpen (rt : MeshRuntime Reconciler) (peerId : String)
    (frame : NostrFrame) : SamePeers rt (handleNegOpen crates channel rt peerId frame).2 := by
  have hquery : SamePeers rt (kindZeroSnapshot crates channel rt).2 :=
    samePeers_query rt [kindZeroRequest]
  rw [handleNegOpen]
  dsimp only
  cases (kindZeroSnapshot crates channel rt).1 with
  | error e => exact hquery
  | ok snapshot =>
    dsimp only
    cases hpeer : (kindZeroSnapshot crates channel rt).2.peers.lookup peerId with
    | none => exact hquery
    | some peer =>
      dsimp only
      cases peer.session.handle crates.negentropy frame (storeEvents crates snapshot) with
      | error e => exact hquery.trans (samePeers_setPeer hpeer)
      | ok output => exact hquery.trans (samePeers_setPeer hpeer)

theorem samePeers_handleNegMsg (rt : MeshRuntime Reconciler) (peerId : String)
    (frame : NostrFrame) : SamePeers rt (handleNegMsg crates rt peerId frame).2 := by
  rw [handleNegMsg]
  cases hpeer : rt.peers.lookup peerId with
  | none => exact .refl rt
  | some peer =>
    dsimp only
    cases peer.session.handle crates.negentropy frame (storeEvents crates peer.snapshot) with
    | error e => exact .refl rt
    | ok output =>
      obtain ⟨output, session⟩ := output
      dsimp only
      cases output.completed with
      | none => exact samePeers_setPeer hpeer
      | some difference => exact samePeers_setPeer hpeer

theorem samePeers_handleReq (rt : MeshRuntime Reconciler) (array : List Value) :
    SamePeers rt (handleReq crates channel rt array).2 := by
  rw [handleReq]
  cases array[1]?.bind Value.asStr with
  | none => exact .refl rt
  | some subscriptionId =>
    dsimp only
    by_cases hfilters : array.drop 2 = []
    · rw [if_pos hfilters]
      exact .refl rt
    · rw [if_neg hfilters]
      cases (array.drop 2).mapM requestFromFilter with
      | error e => exact .refl rt
      | ok requests =>
        have hquery : SamePeers rt (rt.query crates channel requests).2 :=
          samePeers_query rt requests
        dsimp only
        cases (rt.query crates channel requests).1 with
        | error e => exact hquery
        | ok events => exact hquery

theorem samePeers_handleEvent (rt : MeshRuntime Reconciler) (peerId : String)
    (array : List Value) : SamePeers rt (handleEvent crates channel rt peerId array).2 := by
  rw [handleEvent]
  cases eventMember array with
  | none => exact .refl rt
  | some value =>
    dsimp only
    cases crates.json.toEvent value with
    | none => exact .refl rt
    | some event =>
      dsimp only
      cases validateEvent crates.suite crates.verifier event with
      | error e => exact .refl rt
      | ok =>
        dsimp only
        by_cases hkind : event.kind ≠ 0
        · rw [if_pos hkind]
          exact .refl rt
        · rw [if_neg hkind]
          cases keep channel (buildWorkerMessage event "save_to_db" ("ble://" ++ peerId)) with
          | error e => exact .refl rt
          | ok =>
            dsimp only
            cases hpeer : rt.peers.lookup peerId with
            | none => exact .refl rt
            | some peer => exact samePeers_setPeer hpeer

/-- **Frames** come and go between peers that are there. -/
theorem samePeers_handleFrame (rt : MeshRuntime Reconciler) (peerId : String)
    (frame : NostrFrame) : SamePeers rt (handleFrame crates channel rt peerId frame).2 := by
  rw [handleFrame]
  cases frame.json with
  | none => exact .refl rt
  | some value =>
    dsimp only
    cases value.asArray with
    | none => exact .refl rt
    | some array =>
      dsimp only
      cases array.head?.bind Value.asStr with
      | none => exact .refl rt
      | some kind =>
        dsimp only
        by_cases hopen : kind = "NEG-OPEN"
        · rw [if_pos hopen]
          exact samePeers_handleNegOpen rt peerId frame
        rw [if_neg hopen]
        by_cases hmsg : kind = "NEG-MSG" ∨ kind = "NEG-CLOSE"
        · rw [if_pos hmsg]
          exact samePeers_handleNegMsg rt peerId frame
        rw [if_neg hmsg]
        by_cases hreq : kind = "REQ"
        · rw [if_pos hreq]
          exact samePeers_handleReq rt array
        rw [if_neg hreq]
        by_cases hevent : kind = "EVENT"
        · rw [if_pos hevent]
          exact samePeers_handleEvent rt peerId array
        rw [if_neg hevent]
        by_cases heose : kind = "EOSE"
        · rw [if_pos heose]
          exact .refl rt
        · rw [if_neg heose]
          exact .refl rt

theorem samePeers_sendAll (rt : MeshRuntime Reconciler) (peerId : String)
    (frames : List NostrFrame) : SamePeers rt (sendAll crates rt peerId frames).2 := by
  induction frames generalizing rt with
  | nil => exact .refl rt
  | cons frame rest ih =>
    have hsend : SamePeers rt { rt with
        transport := (rt.transport.send crates.json peerId frame).2 } :=
      .ofTransport (MeshByteTransport.sameLinks_send rt.transport peerId frame)
    rw [sendAll]
    dsimp only
    cases (rt.transport.send crates.json peerId frame).1 with
    | error e => exact hsend
    | ok => exact hsend.trans (ih _)

theorem samePeers_receiveFragment (rt : MeshRuntime Reconciler) (peerId : String)
    (fragment : Bytes) (now : ℕ) :
    SamePeers rt (receiveFragment crates channel rt peerId fragment now).2 := by
  have hreceive : SamePeers rt { rt with
      transport := (rt.transport.receive crates.json peerId fragment now).2 } :=
    .ofTransport (MeshByteTransport.sameLinks_receive rt.transport peerId fragment now)
  rw [receiveFragment]
  dsimp only
  cases (rt.transport.receive crates.json peerId fragment now).1 with
  | error e => exact hreceive
  | ok received =>
    cases received with
    | none => exact hreceive
    | some frame =>
      have hhandle : SamePeers rt (handleFrame crates channel { rt with
          transport := (rt.transport.receive crates.json peerId fragment now).2 } peerId frame).2 :=
        hreceive.trans (samePeers_handleFrame _ peerId frame)
      dsimp only
      cases (handleFrame crates channel { rt with
          transport := (rt.transport.receive crates.json peerId fragment now).2 } peerId
          frame).1 with
      | error e => exact hhandle
      | ok responses => exact hhandle.trans (samePeers_sendAll _ peerId responses)

/-! ### A connection -/

variable (crates channel rt peerId) in
/-- The steps between the link and the session of a peer get through: the cache answers, a
reconciliation begins, and the opening frame is within 64 KiB and within 1024 fragments. -/
def Opens (mtu : ℕ) : Prop :=
  ∃ events opening session, (rt.query crates channel [kindZeroRequest]).1 = .ok events
    ∧ openingOf crates peerId (events.foldl persistInStore ∅) = .ok (opening, session)
    ∧ (opening.text crates.json).length ≤ 64 * 1024
    ∧ divCeil (opening.text crates.json).length (mtu - 17) ≤ 1024

theorem text_opening_ne {snapshot : Map String CanonicalEvent} {opening : NostrFrame}
    {session : PeerSession Reconciler}
    (h : openingOf crates peerId snapshot = .ok (opening, session)) :
    opening.text crates.json ≠ [] := by
  rw [openingOf, PeerSession.beginSync] at h
  obtain ⟨storage, -, h⟩ := Result.bind_eq_ok.mp h
  obtain ⟨reconciler, -, h⟩ := Result.bind_eq_ok.mp h
  obtain ⟨⟨initial, next⟩, -, h⟩ := Result.bind_eq_ok.mp h
  obtain ⟨rfl, -⟩ := Prod.mk.inj (Except.ok.inj h)
  intro hnil
  have hbytes := congrArg List.toByteArray hnil
  rw [NostrFrame.text, NostrFrame.negOpen, Utf8.toByteArray_encode] at hbytes
  exact crates.json.toText_ne _ (String.toByteArray_inj.mp hbytes)

variable {mtu : ℕ}

/-- What a connection with a sufficient MTU makes of the peers. -/
structure Connects (rt rt' : MeshRuntime Reconciler) (peerId : String) (opened : Prop) : Prop where
  links : ∀ id, id ∈ rt'.transport.peers ↔ id = peerId ∨ id ∈ rt.transport.peers
  standard : rt'.transport.Standard
  peers : ∀ id, id ∈ rt'.peers ↔ id = peerId ∧ opened ∨ id ∈ rt.peers

theorem Connects.ofFailed {opened : Prop} (hfailed : ¬ opened)
    (hlinks : ∀ id, id ∈ rt'.transport.peers ↔ id = peerId ∨ id ∈ rt.transport.peers)
    (hstandard : rt'.transport.Standard) (hpeers : rt'.peers = rt.peers) :
    Connects rt rt' peerId opened := by
  refine ⟨hlinks, hstandard, fun id => ?_⟩
  rw [hpeers]
  exact ⟨.inr, fun h => h.resolve_left fun hopened => hfailed hopened.2⟩

/-- **A connection** makes the link, and the session if all steps get through. -/
theorem connects_peerConnected (hstandard : rt.transport.Standard) (hmtu : 17 < mtu) :
    Connects rt (peerConnected crates channel rt peerId mtu).2 peerId
      (Opens crates rt peerId channel mtu) := by
  have hlinks : ∀ id, id ∈ rt.transport.peers.insert peerId
      (MeshByteTransport.newLink rt.transport.config mtu) ↔ id = peerId ∨ id ∈ rt.transport.peers :=
    fun id => AList.mem_insert _
  rw [peerConnected, MeshByteTransport.peerConnected_of_lt hmtu]
  dsimp only
  generalize hlinked : ({ rt with transport := { rt.transport with
    peers := rt.transport.peers.insert peerId (MeshByteTransport.newLink rt.transport.config mtu) } } :
      MeshRuntime Reconciler) = linked
  have hanswer : (kindZeroSnapshot crates channel linked).1
      = (rt.query crates channel [kindZeroRequest]).1.map fun events =>
        events.foldl persistInStore ∅ := by
    have hsame : linked.nextRequestId = rt.nextRequestId := by rw [← hlinked]
    rw [← query_answer hsame]
    rfl
  have hstate : (kindZeroSnapshot crates channel linked).2
      = { linked with nextRequestId := (linked.nextRequestId + 1) % 2 ^ 64 } :=
    query_state linked [kindZeroRequest]
  have hpeers : linked.peers = rt.peers := by rw [← hlinked]
  have hconfig : linked.transport.Standard := by
    rw [← hlinked]
    exact ⟨hstandard.config, hstandard.size⟩
  have hlink : ∀ id, id ∈ linked.transport.peers ↔ id = peerId ∨ id ∈ rt.transport.peers := by
    rw [← hlinked]
    exact hlinks
  have hlookup : linked.transport.peers.lookup peerId
      = some (MeshByteTransport.newLink .standard mtu) := by
    rw [← hlinked, ← hstandard.config]
    exact AList.lookup_insert _
  rw [hstate, hanswer]
  cases hevents : (rt.query crates channel [kindZeroRequest]).1 with
  | error e =>
    refine .ofFailed ?_ hlink hconfig hpeers
    rintro ⟨events, -, -, hquery, -⟩
    rw [hevents] at hquery
    simp only [reduceCtorEq] at hquery
  | ok events =>
    dsimp only [Except.map]
    cases hopening : openingOf crates peerId (events.foldl persistInStore ∅) with
    | error e =>
      refine .ofFailed ?_ hlink hconfig hpeers
      rintro ⟨events', opening, session, hquery, hopening', -⟩
      rw [hevents] at hquery
      obtain rfl := Except.ok.inj hquery
      rw [hopening] at hopening'
      simp only [reduceCtorEq] at hopening'
    | ok result =>
      obtain ⟨opening, session⟩ := result
      have hsame : linked.transport.SameLinks
          (linked.transport.send crates.json peerId opening).2 :=
        MeshByteTransport.sameLinks_send linked.transport peerId opening
      have hsends : (linked.transport.send crates.json peerId opening).1 = .ok () ↔ _ :=
        MeshByteTransport.send_empty_queue_iff hconfig hlookup hmtu opening
      have hsentLinks : ∀ id, id ∈ (linked.transport.send crates.json peerId opening).2.peers
          ↔ id = peerId ∨ id ∈ rt.transport.peers :=
        fun id => (hsame.peers id).trans (hlink id)
      dsimp only
      cases hsent : (linked.transport.send crates.json peerId opening).1 with
      | error e =>
        refine .ofFailed ?_ hsentLinks (hsame.standard hconfig) hpeers
        rintro ⟨events', opening', session', hquery, hopening', hfits⟩
        rw [hevents] at hquery
        obtain rfl := Except.ok.inj hquery
        rw [hopening] at hopening'
        obtain ⟨rfl, -⟩ := Prod.mk.inj (Except.ok.inj hopening')
        rw [hsends.mpr ⟨text_opening_ne hopening, hfits⟩] at hsent
        simp only [reduceCtorEq] at hsent
      | ok =>
        have hopened : Opens crates rt peerId channel mtu :=
          ⟨events, opening, session, hevents, hopening, (hsends.mp hsent).2⟩
        refine ⟨hsentLinks, hsame.standard hconfig, fun id => ?_⟩
        dsimp only
        rw [AList.mem_insert, hpeers]
        exact ⟨fun h => h.imp_left fun heq => ⟨heq, hopened⟩, fun h => h.imp_left And.left⟩

/-! ### Sessions and links -/

/-- The runtime has a session with a peer exactly when the transport knows the peer. -/
def Agree (rt : MeshRuntime Reconciler) : Prop := ∀ id, id ∈ rt.peers ↔ id ∈ rt.transport.peers

variable (crates) in
/-- A connection of a peer without a session, with a sufficient MTU, gets as far as the
session. -/
def OpensSession (rt : MeshRuntime Reconciler) : Call → Prop
  | .peerConnected channel peerId mtu =>
    peerId ∉ rt.peers → 17 < mtu → Opens crates rt peerId channel mtu
  | _ => True

theorem SamePeers.agree_iff (h : SamePeers rt rt') : rt'.Agree ↔ rt.Agree := by
  constructor
  · intro hagree id
    rw [← h.peers, ← h.links.peers]
    exact hagree id
  · intro hagree id
    rw [h.peers, h.links.peers]
    exact hagree id

theorem Connects.agree_iff {opened : Prop} (h : Connects rt rt' peerId opened)
    (hagree : rt.Agree) : rt'.Agree ↔ (peerId ∉ rt.peers → opened) := by
  constructor
  · intro hnext hnew
    have hmem := (hnext peerId).mpr ((h.links peerId).mpr (.inl rfl))
    obtain hopened | hold := (h.peers peerId).mp hmem
    · exact hopened.2
    · exact absurd hold hnew
  · intro hopens id
    rw [h.peers, h.links, hagree id]
    constructor
    · exact fun hmem => hmem.imp_left And.left
    · rintro (rfl | hmem)
      · by_cases hold : id ∈ rt.peers
        · exact .inr ((hagree id).mp hold)
        · exact .inl ⟨rfl, hopens hold⟩
      · exact .inr hmem

theorem agree_peerDisconnected (hagree : rt.Agree) (peerId : String) :
    (rt.peerDisconnected peerId).Agree := by
  intro id
  show id ∈ rt.peers.erase peerId ↔ id ∈ rt.transport.peers.erase peerId
  rw [AList.mem_erase, AList.mem_erase, hagree id]

theorem standard_step (hstandard : rt.transport.Standard) (call : Call) :
    (step crates rt call).transport.Standard := by
  cases call with
  | peerConnected channel peerId mtu =>
    by_cases hmtu : mtu ≤ 17
    · rw [step, peerConnected, MeshByteTransport.peerConnected_of_le hmtu]
      exact hstandard
    · exact (connects_peerConnected hstandard (Nat.not_le.mp hmtu)).standard
  | peerDisconnected peerId => exact ⟨hstandard.config, hstandard.size⟩
  | receiveFragment channel peerId fragment now =>
    exact (samePeers_receiveFragment rt peerId fragment now).links.standard hstandard
  | popOutbound peerId =>
    exact (MeshByteTransport.sameLinks_popOutbound rt.transport peerId).standard hstandard
  | setLocalProfile channel event => exact hstandard
  | clearLocalProfile channel => exact hstandard

/-- **One call**, from a state in which sessions and links agree. -/
theorem agree_step_iff (hstandard : rt.transport.Standard) (hagree : rt.Agree) (call : Call) :
    (step crates rt call).Agree ↔ OpensSession crates rt call := by
  cases call with
  | peerConnected channel peerId mtu =>
    by_cases hmtu : mtu ≤ 17
    · rw [step, peerConnected, MeshByteTransport.peerConnected_of_le hmtu]
      refine iff_of_true hagree fun _ hlong => ?_
      omega
    · rw [step, (connects_peerConnected hstandard (Nat.not_le.mp hmtu)).agree_iff hagree]
      exact ⟨fun h hnew _ => h hnew, fun h hnew => h hnew (Nat.not_le.mp hmtu)⟩
  | peerDisconnected peerId => exact iff_of_true (agree_peerDisconnected hagree peerId) trivial
  | receiveFragment channel peerId fragment now =>
    exact iff_of_true
      ((samePeers_receiveFragment rt peerId fragment now).agree_iff.mpr hagree) trivial
  | popOutbound peerId =>
    exact iff_of_true ((SamePeers.ofTransport
      (MeshByteTransport.sameLinks_popOutbound rt.transport peerId)).agree_iff.mpr hagree) trivial
  | setLocalProfile channel event => exact iff_of_true hagree trivial
  | clearLocalProfile channel => exact iff_of_true hagree trivial

theorem agree_exec_iff (hstandard : rt.transport.Standard) (hagree : rt.Agree)
    (calls : List Call) :
    (∀ before, before <+: calls → (Run.exec (step crates) rt before).Agree)
      ↔ Run.Along (step crates) (OpensSession crates) rt calls := by
  induction calls generalizing rt with
  | nil =>
    refine iff_of_true (fun before hbefore => ?_) trivial
    rw [List.prefix_nil.mp hbefore]
    exact hagree
  | cons call calls ih =>
    have hnext : (step crates rt call).transport.Standard := standard_step hstandard call
    constructor
    · intro h
      have hfirst : (step crates rt call).Agree :=
        h [call] (List.cons_prefix_cons.mpr ⟨rfl, List.nil_prefix⟩)
      refine ⟨(agree_step_iff hstandard hagree call).mp hfirst, (ih hnext hfirst).mp ?_⟩
      intro before hbefore
      exact h (call :: before) (List.cons_prefix_cons.mpr ⟨rfl, hbefore⟩)
    · rintro ⟨hopens, hrest⟩ before hbefore
      have hfirst := (agree_step_iff hstandard hagree call).mpr hopens
      obtain rfl | ⟨before, rfl, hinside⟩ := List.prefix_cons_iff.mp hbefore
      · exact hagree
      · exact (ih hnext hfirst).mpr hrest before hinside

/-- **Sessions and links belong to the same peers after every call of a run**, whatever the
calls return, exactly when every connection of a peer without a session that has a sufficient
MTU gets through the query, the beginning of the reconciliation and the sending. -/
theorem peers_agree_iff (crates : MeshCrates Id Storage Reconciler) (calls : List Call) :
    (∀ before, before <+: calls → (Run.exec (step crates) new before).Agree)
      ↔ Run.Along (step crates) (OpensSession crates) new calls :=
  agree_exec_iff MeshByteTransport.standard_new
    (fun id => iff_of_false (AList.notMem_empty id) (AList.notMem_empty id)) calls

/-! ### A cache worker that is gone -/

def silentJson : MeshJson where
  fromStr := fun _ => none
  toText := fun _ => "[]"
  toText_ne := fun _ => by decide
  ofEvent := fun _ => .null
  toEvent := fun _ => none

def silentCrates : MeshCrates Bytes (List (ℕ × Bytes)) PagedReconciler where
  negentropy := paged
  json := silentJson
  blake3 := fun _ => List.replicate 32 0
  suite := earlyProfile.suite
  verifier := earlyProfile.verifier
  buffers := earlyProfile.buffers
  order := .entries String

def closedChannel : CacheChannel := ⟨fun _ => false, fun _ _ => []⟩

/-- A peer comes while the cache channel is closed: the call fails, and the transport knows a
peer that the runtime does not know. -/
theorem closed_cache_leaves_link :
    ¬ ∀ before, before <+: [Call.peerConnected closedChannel "peer" 100] →
      (Run.exec (step silentCrates) new before).Agree := by
  intro h
  have hagree := h _ (List.prefix_refl _) "peer"
  exact absurd (hagree.mpr (by decide)) (by decide)

end MeshRuntime

end Nipworker
