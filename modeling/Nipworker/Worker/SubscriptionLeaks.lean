/-
A subscription that is closed before it is open (`worker/parser_worker.rs`,
`worker/cache_worker.rs`, `worker/connections_worker.rs`).

A subscription request goes from the parser to the cache, and from there as a REQ to the
connections worker; a CLOSE takes the direct way.  When it overtakes the REQ, the
connections worker finds nothing to close, and the REQ that follows stays open.
-/
import Nipworker.Worker.Connections

namespace Nipworker

open List Option

/-- A subscription request on the way to the cache, or the note that it is closed. -/
inductive CacheInput
  | request (subId : String)
  | close (subId : String)
  deriving DecidableEq

/-- A REQ on the way from the cache to the connections worker. -/
structure ReqMessage where
  subId : String
  relays : List String
  filter : Json

/-- A CLOSE on the way from the parser to the connections worker; no relay means all. -/
structure CloseMessage where
  subId : String
  url : String
  deriving DecidableEq

def ReqMessage.envelope (serde : SerdeJson) (req : ReqMessage) : Envelope where
  relays := req.relays
  frames := [serde.toText (.array [.string "REQ", .string req.subId, req.filter])]

def CloseMessage.frame (serde : SerdeJson) (close : CloseMessage) : String :=
  serde.toText (.array [.string "CLOSE", .string close.subId])

/-- The parser, the cache and the connections worker, and what is on its way between
them. -/
structure Workers where
  subscriptions : Finset String
  toCache : List CacheInput
  reqs : List ReqMessage
  closes : List CloseMessage
  connections : Connections

namespace Workers

variable (serde : SerdeJson) (w : Workers)

def new : Workers :=
  { subscriptions := ∅, toCache := [], reqs := [], closes := [], connections := .new }

/-- `open_subscription`; `ok` when the subscription manager accepts the requests. -/
def openSubscription (subId : String) (ok : Bool) : Workers :=
  if subId ∈ w.subscriptions then w
  else if ok then
    { w with
      subscriptions := insert subId w.subscriptions
      toCache := w.toCache ++ [.request subId] }
  else w

def closeSubscription (subId : String) : Workers :=
  { w with
    subscriptions := w.subscriptions.erase subId
    toCache := w.toCache ++ [.close subId]
    closes := w.closes ++ [⟨subId, ""⟩] }

def closeRelaySubscription (subId relayUrl : String) : Workers :=
  if relayUrl ≠ "" then { w with closes := w.closes ++ [⟨subId, relayUrl⟩] } else w

/-- The cache takes its next input.  For every request of a subscription that it does
not answer alone it sends a REQ, to the relays of the request. -/
def cacheStep (upstream : List (List String × Json)) : Workers :=
  match w.toCache with
  | [] => w
  | .close _ :: rest => { w with toCache := rest }
  | .request subId :: rest =>
    { w with
      toCache := rest
      reqs := w.reqs ++ upstream.map fun up => ⟨subId, up.1, up.2⟩ }

/-- The connections worker takes the next envelope of the cache. -/
def reqStep (env : ConnectionsEnv) : Workers :=
  match w.reqs with
  | [] => w
  | req :: rest =>
    { w with
      reqs := rest
      connections := w.connections.sendEnvelope serde env (req.envelope serde) }

/-- The connections worker takes the next message of the parser. -/
def closeStep (env : ConnectionsEnv) : Workers :=
  match w.closes with
  | [] => w
  | close :: rest =>
    { w with
      closes := rest
      connections := w.connections.parserRaw serde env close.url (close.frame serde) }

end Workers

/-- A command to the parser, or a worker taking its next message. -/
inductive WorkersAct
  | openSubscription (subId : String) (ok : Bool)
  | closeSubscription (subId : String)
  | closeRelaySubscription (subId relayUrl : String)
  | cacheStep (upstream : List (List String × Json))
  | reqStep (env : ConnectionsEnv)
  | closeStep (env : ConnectionsEnv)

def Workers.step (serde : SerdeJson) (w : Workers) : WorkersAct → Workers
  | .openSubscription subId ok => w.openSubscription subId ok
  | .closeSubscription subId => w.closeSubscription subId
  | .closeRelaySubscription subId relayUrl => w.closeRelaySubscription subId relayUrl
  | .cacheStep upstream => w.cacheStep upstream
  | .reqStep env => w.reqStep serde env
  | .closeStep env => w.closeStep serde env

/-! ### The property and the condition -/

/-- The kind of the last frame of a subscription in the queue of a relay, one entry
later. -/
def lastKindStep (serde : SerdeJson) (s relay : String) (last : Option String) :
    ConnectionsEffect → Option String
  | .sentRaw url frame _ true =>
    match relayFrameState serde frame with
    | some (kind, subId) => if url = relay ∧ subId = s then some kind else last
    | none => last
  | _ => last

/-- The kind of the last REQ or CLOSE of the subscription that entered the queue of the
connection to the relay. -/
def lastKind (serde : SerdeJson) (s relay : String) (log : List ConnectionsEffect) :
    Option String :=
  log.foldl (lastKindStep serde s relay) none

/-- With the subscription closed and all channels empty, no relay is left for it, and the
last frame every relay got for it is a CLOSE. -/
def ReleasedWhenQuiet (serde : SerdeJson) (s : String) (w : Workers) : Prop :=
  s ∉ w.subscriptions → w.toCache = [] → w.reqs = [] → w.closes = [] →
    w.connections.relaysOf s = [] ∧
      ∀ relay kind, lastKind serde s relay w.connections.log = some kind → kind = "CLOSE"

/-- No REQ of the subscription is under way. -/
def Workers.NoReqPending (w : Workers) (s : String) : Prop :=
  CacheInput.request s ∉ w.toCache ∧ ∀ req ∈ w.reqs, req.subId ≠ s

/-- A full CLOSE that is delivered finds room in the queues of the subscription's relays;
and when it is the last one of a subscription that nobody has opened again, no REQ of the
subscription is on its way. -/
def CloseComesLast (s : String) (w : Workers) : WorkersAct → Prop
  | .closeStep env => ∀ rest, w.closes = ⟨s, ""⟩ :: rest →
      (∀ relay ∈ w.connections.relaysOf s, ∀ n, env.room relay n = true) ∧
        (s ∉ w.subscriptions → ⟨s, ""⟩ ∉ rest → w.NoReqPending s)
  | _ => True

/-! ### What the connections worker does to one subscription -/

variable {serde : SerdeJson} {env : ConnectionsEnv} {st st' st'' : Connections} {s : String}

namespace Connections

theorem relaysOf_recordRelay (subId relay : String) :
    (st.recordRelay subId relay).relaysOf s =
      if s = subId then (st.relaysOf subId).insert relay else st.relaysOf s := by
  rw [relaysOf, recordRelay, Map.lookup_insert_ite]
  split
  · rfl
  · rfl

theorem relaysOf_releaseRelay (subId relay : String) :
    (st.releaseRelay subId relay).relaysOf s =
      if s = subId then (st.relaysOf s).erase relay else st.relaysOf s := by
  by_cases hs : s = subId
  · subst hs
    rw [if_pos rfl, releaseRelay, relaysOf, relaysOf]
    cases hlookup : st.subRelays.lookup s with
    | none => simp [hlookup]
    | some relays =>
      dsimp only
      split
      · rename_i hlast
        rw [Map.lookup_erase_ite, if_pos rfl, getD_none, getD_some, hlast]
      · rw [Map.lookup_insert_ite, if_pos rfl, getD_some, getD_some]
  · rw [if_neg hs, releaseRelay, relaysOf, relaysOf]
    cases st.subRelays.lookup subId with
    | none => rfl
    | some relays =>
      dsimp only
      split
      · rw [Map.lookup_erase_ite, if_neg hs]
      · rw [Map.lookup_insert_ite, if_neg hs]

end Connections

theorem lastKind_concat (relay : String) (log : List ConnectionsEffect) (e : ConnectionsEffect) :
    lastKind serde s relay (log ++ [e]) =
      lastKindStep serde s relay (lastKind serde s relay log) e := by
  rw [lastKind, foldl_append]
  rfl

variable {subId : String} {close : CloseMessage}

theorem lastKind_sendRaw {frame kind : String}
    (hstate : relayFrameState serde frame = some (kind, subId)) (url relay : String) :
    lastKind serde s relay (st.sendRaw serde env url frame).log =
      if st.hasRoom env url = true ∧ url = relay ∧ subId = s then some kind
      else lastKind serde s relay st.log := by
  rw [Connections.sendRaw_log, lastKind_concat]
  cases st.hasRoom env url with
  | false => simp [lastKindStep]
  | true => simp [lastKindStep, hstate]

/-- The step leaves the subscription alone. -/
structure Untouched (serde : SerdeJson) (s : String) (st st' : Connections) : Prop where
  relays : st'.relaysOf s = st.relaysOf s
  last : ∀ relay, lastKind serde s relay st'.log = lastKind serde s relay st.log

theorem Untouched.refl (st : Connections) : Untouched serde s st st := ⟨rfl, fun _ => rfl⟩

theorem Untouched.trans (h : Untouched serde s st st') (h' : Untouched serde s st' st'') :
    Untouched serde s st st'' :=
  ⟨h'.relays.trans h.relays, fun relay => (h'.last relay).trans (h.last relay)⟩

theorem untouched_sendRaw {frame kind : String}
    (hstate : relayFrameState serde frame = some (kind, subId)) (hne : subId ≠ s) (url : String) :
    Untouched serde s st (st.sendRaw serde env url frame) := by
  refine ⟨rfl, fun relay => ?_⟩
  rw [lastKind_sendRaw hstate, if_neg fun h => hne h.2.2]

theorem untouched_recordRelay (hne : subId ≠ s) (relay : String) :
    Untouched serde s st (st.recordRelay subId relay) :=
  ⟨by rw [Connections.relaysOf_recordRelay, if_neg hne.symm], fun _ => rfl⟩

theorem untouched_releaseRelay (hne : subId ≠ s) (relay : String) :
    Untouched serde s st (st.releaseRelay subId relay) := by
  refine ⟨by rw [Connections.relaysOf_releaseRelay, if_neg hne.symm], fun _ => ?_⟩
  rw [Connections.releaseRelay_log]

/-- A relay whose last frame is a REQ is known to be open. -/
def SubTracked (serde : SerdeJson) (s : String) (st : Connections) : Prop :=
  ∀ relay, lastKind serde s relay st.log = some "REQ" → relay ∈ st.relaysOf s

theorem SubTracked.untouched (h : SubTracked serde s st) (hsame : Untouched serde s st st') :
    SubTracked serde s st' := by
  intro relay hlast
  rw [hsame.relays]
  exact h relay ((hsame.last relay).symm.trans hlast)

/-! ### REQs -/

theorem reqEnvelope_inv (hserde : serde.ReadsFrames) {Inv : Connections → Prop} (req : ReqMessage)
    (hreq : ∀ st relay frame, relayFrameState serde frame = some ("REQ", req.subId) → Inv st →
      Inv ((st.recordRelay req.subId relay).sendRaw serde env relay frame))
    (h : Inv st) : Inv (st.sendEnvelope serde env (req.envelope serde)) := by
  have hstate : relayFrameState serde
      (serde.toText (.array [.string "REQ", .string req.subId, req.filter])) =
      some ("REQ", req.subId) := by
    rw [hserde.read, if_pos (.inl rfl)]
  rw [Connections.sendEnvelope, ReqMessage.envelope]
  dsimp only
  generalize req.relays = relays
  induction relays generalizing st with
  | nil => exact h
  | cons relay relays ih =>
    rw [foldl_cons]
    split
    · exact ih h
    · refine ih ?_
      rw [foldl_cons, foldl_nil, Connections.sendEnvelopeFrame, hstate]
      exact hreq st relay _ hstate h

theorem untouched_req (hserde : serde.ReadsFrames) {req : ReqMessage} (hne : req.subId ≠ s) :
    Untouched serde s st (st.sendEnvelope serde env (req.envelope serde)) := by
  refine reqEnvelope_inv hserde req (fun st' relay frame hstate hsame => ?_) (.refl st)
  exact (hsame.trans (untouched_recordRelay hne relay)).trans (untouched_sendRaw hstate hne relay)

theorem subTracked_req (hserde : serde.ReadsFrames) (req : ReqMessage) (h : SubTracked serde s st) :
    SubTracked serde s (st.sendEnvelope serde env (req.envelope serde)) := by
  by_cases hne : req.subId ≠ s
  · exact h.untouched (untouched_req hserde hne)
  · refine reqEnvelope_inv hserde req (fun st' url frame hstate h' relay hlast => ?_) h
    -- the relay is recorded before the frame is sent
    show relay ∈ (st'.recordRelay req.subId url).relaysOf s
    rw [lastKind_sendRaw hstate] at hlast
    rw [Connections.relaysOf_recordRelay, if_pos (not_not.mp hne).symm, not_not.mp hne]
    split at hlast
    · rename_i hsent
      rw [hsent.2.1]
      exact mem_insert_self
    · exact mem_insert_of_mem (h' relay hlast)

/-! ### CLOSEs -/

theorem closeFrame_state (hserde : serde.ReadsFrames) (close : CloseMessage) :
    relayFrameState serde (close.frame serde) = some ("CLOSE", close.subId) := by
  rw [CloseMessage.frame, hserde.read, if_pos (.inr rfl)]

theorem lastKind_closeAll {frame : String} (hstate : relayFrameState serde frame = some ("CLOSE", s))
    (relays : List String) (hroom : ∀ relay ∈ relays, ∀ n, env.room relay n = true)
    (relay : String) :
    lastKind serde s relay
        (relays.foldl (fun st relay => st.sendRaw serde env relay frame) st).log =
      if relay ∈ relays then some "CLOSE" else lastKind serde s relay st.log := by
  induction relays generalizing st with
  | nil => rw [if_neg not_mem_nil, foldl_nil]
  | cons url relays ih =>
    have hhead : st.hasRoom env url = true := hroom url mem_cons_self _
    rw [foldl_cons, ih fun r hr => hroom r (mem_cons_of_mem url hr),
      lastKind_sendRaw hstate]
    by_cases hmem : relay ∈ relays
    · rw [if_pos hmem, if_pos (mem_cons_of_mem url hmem)]
    · rw [if_neg hmem]
      by_cases hurl : url = relay
      · rw [if_pos ⟨hhead, hurl, rfl⟩, if_pos (hurl ▸ mem_cons_self)]
      · rw [if_neg fun h => hurl h.2.1, if_neg]
        exact fun h => (List.mem_cons.mp h).elim (fun heq => hurl heq.symm) hmem

theorem parserRaw_relay (hserde : serde.ReadsFrames) (close : CloseMessage) (hurl : close.url ≠ "") :
    st.parserRaw serde env close.url (close.frame serde) =
      if st.hasRoom env close.url then
        (st.sendRaw serde env close.url (close.frame serde)).releaseRelay close.subId close.url
      else st.sendRaw serde env close.url (close.frame serde) := by
  have htext : close.frame serde ≠ "" := hserde.nonempty _
  rw [Connections.parserRaw, if_pos ⟨htext, hurl⟩, closeFrame_state hserde]
  rfl

theorem parserRaw_full (hserde : serde.ReadsFrames) (close : CloseMessage) (hurl : close.url = "") :
    st.parserRaw serde env close.url (close.frame serde) =
      st.closeSub serde env close.subId (close.frame serde) := by
  have htext : close.frame serde ≠ "" := hserde.nonempty _
  rw [Connections.parserRaw, if_neg fun h => h.2 hurl, if_pos htext, closeFrame_state hserde]
  rfl

theorem relaysOf_closeSub (subId frame : String) :
    (st.closeSub serde env subId frame).relaysOf s = if s = subId then [] else st.relaysOf s := by
  have hkept : ∀ (relays : List String) (st : Connections),
      (relays.foldl (fun st relay => st.sendRaw serde env relay frame) st).subRelays =
        st.subRelays := by
    intro relays
    induction relays with
    | nil => exact fun _ => rfl
    | cons relay relays ih =>
      intro st
      rw [foldl_cons, ih]
      rfl
  rw [Connections.relaysOf, Connections.closeSub, hkept]
  show ((st.subRelays.erase subId).lookup s).getD [] = _
  rw [Map.lookup_erase_ite]
  split
  · rfl
  · rfl

theorem untouched_close (hserde : serde.ReadsFrames) (hne : close.subId ≠ s) :
    Untouched serde s st (st.parserRaw serde env close.url (close.frame serde)) := by
  have hstate := closeFrame_state hserde close
  by_cases hurl : close.url = ""
  · rw [parserRaw_full hserde close hurl]
    refine Connections.foldl_sendRaw_inv (close.frame serde)
      (fun st' url h => h.trans (untouched_sendRaw hstate hne url)) _ ?_
    refine ⟨?_, fun _ => rfl⟩
    show ((st.subRelays.erase close.subId).lookup s).getD [] = st.relaysOf s
    rw [Map.lookup_erase_ite, if_neg hne.symm]
    rfl
  · rw [parserRaw_relay hserde close hurl]
    split
    · exact (untouched_sendRaw hstate hne close.url).trans (untouched_releaseRelay hne close.url)
    · exact untouched_sendRaw hstate hne close.url

theorem subTracked_relayClose (hserde : serde.ReadsFrames)
    (hsub : close.subId = s) (hurl : close.url ≠ "") (h : SubTracked serde s st) :
    SubTracked serde s (st.parserRaw serde env close.url (close.frame serde)) := by
  have hstate := closeFrame_state hserde close
  rw [parserRaw_relay hserde close hurl]
  intro relay hlast
  split at hlast
  · rename_i hroom
    rw [if_pos hroom, Connections.relaysOf_releaseRelay, if_pos hsub.symm]
    rw [Connections.releaseRelay_log, lastKind_sendRaw hstate] at hlast
    split at hlast
    · exact absurd hlast (by decide)
    · rename_i hother
      have hne : relay ≠ close.url := fun heq => hother ⟨hroom, heq.symm, hsub⟩
      exact (mem_erase_of_ne hne).mpr (h relay hlast)
  · rename_i hroom
    rw [if_neg hroom]
    rw [lastKind_sendRaw hstate, if_neg fun h => hroom h.1] at hlast
    exact h relay hlast

theorem relaysOf_relayClose (hserde : serde.ReadsFrames)
    (hurl : close.url ≠ "") (h : st.relaysOf s = []) :
    (st.parserRaw serde env close.url (close.frame serde)).relaysOf s = [] := by
  rw [parserRaw_relay hserde close hurl]
  split
  · rw [Connections.relaysOf_releaseRelay]
    have hsent : (st.sendRaw serde env close.url (close.frame serde)).relaysOf s = [] := h
    rw [hsent]
    split
    · rfl
    · rfl
  · exact h

theorem subTracked_fullClose (hserde : serde.ReadsFrames)
    (hsub : close.subId = s) (hurl : close.url = "") (h : SubTracked serde s st)
    (hroom : ∀ relay ∈ st.relaysOf s, ∀ n, env.room relay n = true) :
    SubTracked serde s (st.parserRaw serde env close.url (close.frame serde)) := by
  have hstate := closeFrame_state hserde close
  rw [hsub] at hstate
  rw [parserRaw_full hserde close hurl]
  intro relay hlast
  rw [Connections.closeSub, hsub, lastKind_closeAll hstate] at hlast
  · split at hlast
    · exact absurd hlast (by decide)
    · rename_i hnot
      -- a relay that is not closed here had no REQ as its last frame
      have hlog : lastKind serde s relay st.log = some "REQ" := hlast
      exact absurd ((env.iter.perm _).mem_iff.mpr (h relay hlog)) hnot
  · intro url hmem
    exact hroom url ((env.iter.perm _).mem_iff.mp hmem)

/-! ### Steps and runs -/

/-- What holds of the subscription in every state. -/
structure NoLeak (serde : SerdeJson) (s : String) (w : Workers) : Prop where
  tracked : SubTracked serde s w.connections
  settled : s ∉ w.subscriptions → ⟨s, ""⟩ ∉ w.closes →
    w.NoReqPending s ∧ w.connections.relaysOf s = []

theorem lastKind_reqOrClose {relay kind : String} {log : List ConnectionsEffect}
    (h : lastKind serde s relay log = some kind) : kind = "REQ" ∨ kind = "CLOSE" := by
  induction log using List.reverseRecOn with
  | nil => cases h
  | append_singleton log e ih =>
    rw [lastKind_concat] at h
    rw [lastKindStep.eq_def] at h
    split at h
    · split at h
      · rename_i kind' subId hstate
        split at h
        · cases h
          rw [relayFrameState] at hstate
          split at hstate
          · split at hstate
            · cases hstate
            · rename_i hkind
              obtain ⟨id, -, hpair⟩ := Option.map_eq_some_iff.mp hstate
              cases hpair
              tauto
          · cases hstate
        · exact ih h
      · exact ih h
    · exact ih h

theorem NoLeak.released {w : Workers} (h : NoLeak serde s w) : ReleasedWhenQuiet serde s w := by
  intro hclosed _ _ hcloses
  have hrelays : w.connections.relaysOf s = [] := by
    refine (h.settled hclosed ?_).2
    rw [hcloses]
    exact not_mem_nil
  refine ⟨hrelays, fun relay kind hlast => ?_⟩
  rcases lastKind_reqOrClose hlast with rfl | rfl
  · have hmem := h.tracked relay hlast
    rw [hrelays] at hmem
    cases hmem
  · rfl

theorem noLeak_reqStep (hserde : serde.ReadsFrames) {w : Workers} (h : NoLeak serde s w) :
    NoLeak serde s (w.reqStep serde env) := by
  rw [Workers.reqStep]
  split
  · exact h
  · rename_i req rest hreqs
    refine ⟨subTracked_req hserde req h.tracked, fun hclosed hcloses => ?_⟩
    obtain ⟨⟨hcache, hpending⟩, hrelays⟩ := h.settled hclosed hcloses
    rw [hreqs] at hpending
    refine ⟨⟨hcache, fun r hr => hpending r (mem_cons_of_mem req hr)⟩, ?_⟩
    exact (untouched_req hserde (hpending req mem_cons_self)).relays.trans hrelays

theorem noLeak_closeStep (hserde : serde.ReadsFrames) {w : Workers} (h : NoLeak serde s w)
    (hlast : CloseComesLast s w (.closeStep env)) : NoLeak serde s (w.closeStep serde env) := by
  rw [Workers.closeStep]
  split
  · exact h
  · rename_i close rest hcloses
    have hcloses' : ⟨s, ""⟩ ∉ rest → close ≠ ⟨s, ""⟩ → ⟨s, ""⟩ ∉ w.closes := by
      intro hrest hne
      rw [hcloses]
      exact fun hmem => (List.mem_cons.mp hmem).elim (fun heq => hne heq.symm) hrest
    by_cases hsub : close.subId = s
    · by_cases hurl : close.url = ""
      · -- the full CLOSE of the subscription
        have hclose : close = ⟨s, ""⟩ := by
          rw [← hsub, ← hurl]
        rw [hclose] at hcloses
        obtain ⟨hroom, hpending⟩ := hlast rest hcloses
        refine ⟨subTracked_fullClose hserde hsub hurl h.tracked hroom, fun hclosed hrest => ?_⟩
        refine ⟨hpending hclosed hrest, ?_⟩
        show (w.connections.parserRaw serde env close.url (close.frame serde)).relaysOf s = []
        rw [parserRaw_full hserde close hurl, relaysOf_closeSub, if_pos hsub.symm]
      · refine ⟨subTracked_relayClose hserde hsub hurl h.tracked, fun hclosed hrest => ?_⟩
        have hne : close ≠ ⟨s, ""⟩ := fun heq => hurl (congrArg CloseMessage.url heq)
        obtain ⟨hpending, hrelays⟩ := h.settled hclosed (hcloses' hrest hne)
        exact ⟨hpending, relaysOf_relayClose hserde hurl hrelays⟩
    · have hsame : Untouched serde s w.connections
          (w.connections.parserRaw serde env close.url (close.frame serde)) :=
        untouched_close hserde hsub
      refine ⟨h.tracked.untouched hsame, fun hclosed hrest => ?_⟩
      have hne : close ≠ ⟨s, ""⟩ := fun heq => hsub (congrArg CloseMessage.subId heq)
      obtain ⟨hpending, hrelays⟩ := h.settled hclosed (hcloses' hrest hne)
      exact ⟨hpending, hsame.relays.trans hrelays⟩

/-- **One step.** -/
theorem noLeak_step (hserde : serde.ReadsFrames) (w : Workers) (act : WorkersAct)
    (h : NoLeak serde s w) (hlast : CloseComesLast s w act) :
    NoLeak serde s (w.step serde act) := by
  cases act with
  | openSubscription subId ok =>
    show NoLeak serde s (w.openSubscription subId ok)
    rw [Workers.openSubscription]
    split
    · exact h
    · split
      · refine ⟨h.tracked, fun hclosed hcloses => ?_⟩
        have hne : s ≠ subId := fun heq => hclosed (heq ▸ Finset.mem_insert_self _ _)
        obtain ⟨⟨hcache, hreqs⟩, hrelays⟩ :=
          h.settled (fun hmem => hclosed (Finset.mem_insert_of_mem hmem)) hcloses
        refine ⟨⟨fun hmem => ?_, hreqs⟩, hrelays⟩
        rcases List.mem_append.mp hmem with hold | hnew
        · exact hcache hold
        · rw [mem_singleton] at hnew
          exact hne (CacheInput.request.inj hnew)
      · exact h
  | closeSubscription subId =>
    refine ⟨h.tracked, fun hclosed hcloses => ?_⟩
    have hcloses' : ⟨s, ""⟩ ∉ w.closes ++ [⟨subId, ""⟩] := hcloses
    have hne : s ≠ subId := fun heq => hcloses' (by simp [heq])
    have hopen : s ∉ w.subscriptions := fun hmem => hclosed (Finset.mem_erase.mpr ⟨hne, hmem⟩)
    obtain ⟨⟨hcache, hreqs⟩, hrelays⟩ :=
      h.settled hopen fun hmem => hcloses' (mem_append_left _ hmem)
    refine ⟨⟨fun hmem => ?_, hreqs⟩, hrelays⟩
    rcases List.mem_append.mp hmem with hold | hnew
    · exact hcache hold
    · cases List.mem_singleton.mp hnew
  | closeRelaySubscription subId relayUrl =>
    show NoLeak serde s (w.closeRelaySubscription subId relayUrl)
    rw [Workers.closeRelaySubscription]
    split
    · refine ⟨h.tracked, fun hclosed hcloses => ?_⟩
      exact h.settled hclosed fun hmem => hcloses (mem_append_left _ hmem)
    · exact h
  | cacheStep upstream =>
    show NoLeak serde s (w.cacheStep upstream)
    rw [Workers.cacheStep]
    split
    · exact h
    · rename_i subId rest hcache
      refine ⟨h.tracked, fun hclosed hcloses => ?_⟩
      obtain ⟨⟨hnone, hreqs⟩, hrelays⟩ := h.settled hclosed hcloses
      rw [hcache] at hnone
      exact ⟨⟨fun hmem => hnone (mem_cons_of_mem _ hmem), hreqs⟩, hrelays⟩
    · rename_i subId rest hcache
      refine ⟨h.tracked, fun hclosed hcloses => ?_⟩
      obtain ⟨⟨hnone, hreqs⟩, hrelays⟩ := h.settled hclosed hcloses
      rw [hcache] at hnone
      refine ⟨⟨fun hmem => hnone (mem_cons_of_mem _ hmem), fun req hreq => ?_⟩, hrelays⟩
      -- the REQs the cache sends are of the subscription it was asked for
      rcases List.mem_append.mp hreq with hold | hnew
      · exact hreqs req hold
      · obtain ⟨up, -, rfl⟩ := List.mem_map.mp hnew
        rintro rfl
        exact hnone mem_cons_self
  | reqStep env => exact noLeak_reqStep hserde h
  | closeStep env => exact noLeak_closeStep hserde h hlast

/-- **No leaked subscription**, in every run in which the last CLOSE of a closed
subscription is delivered after its REQs, and the queues take the CLOSEs. -/
theorem closed_subscription_released (hserde : serde.ReadsFrames) (s : String)
    (acts : List WorkersAct)
    (hlast : Run.Along (Workers.step serde) (CloseComesLast s) .new acts) :
    ReleasedWhenQuiet serde s (Run.exec (Workers.step serde) .new acts) := by
  have hnew : NoLeak serde s Workers.new := by
    refine ⟨fun relay hreq => ?_, fun _ _ => ⟨⟨not_mem_nil, fun req hreq => ?_⟩, rfl⟩⟩
    · cases hreq
    · cases hreq
  exact (Run.Along.exec (noLeak_step hserde) hnew hlast).released

/-- The environment of the examples: there is room, and nothing is timed. -/
def roomy : ConnectionsEnv := ⟨fun _ _ => true, .entries String, 0⟩

/-- A subscription is opened, its REQ goes out, and it is closed. -/
def openedThenClosed : List WorkersAct :=
  [.openSubscription "s1" true, .cacheStep [(["wss://r"], .object [])], .reqStep roomy,
   .closeSubscription "s1", .closeStep roomy, .cacheStep []]

theorem closed_subscription_released_inOrder :
    lastKind frameSerde "s1" "wss://r"
        (Run.exec (Workers.step frameSerde) .new openedThenClosed).connections.log = some "CLOSE" ∧
      ReleasedWhenQuiet frameSerde "s1"
        (Run.exec (Workers.step frameSerde) .new openedThenClosed) := by
  refine ⟨by decide,
    closed_subscription_released frameSerde_readsFrames "s1" openedThenClosed ?_⟩
  refine ⟨trivial, trivial, trivial, trivial, fun rest _ => ?_, trivial, trivial⟩
  refine ⟨fun _ _ _ => rfl, fun _ _ => ⟨?_, fun req hreq => ?_⟩⟩
  · decide
  · cases hreq

/-- A subscription is closed while its request is on the way to the cache. -/
def closedBeforeOpen : List WorkersAct :=
  [.openSubscription "s1" true, .closeSubscription "s1", .closeStep roomy,
   .cacheStep [(["wss://r"], .object [])], .cacheStep [], .reqStep roomy]

/-- The CLOSE finds nothing to close, and the REQ stays open. -/
theorem overtaken_req_leaks :
    ¬ ReleasedWhenQuiet frameSerde "s1"
      (Run.exec (Workers.step frameSerde) .new closedBeforeOpen) := by
  intro h
  have hrelays := (h (by decide) (by decide) rfl rfl).1
  exact absurd hrelays (by decide)

end Nipworker
