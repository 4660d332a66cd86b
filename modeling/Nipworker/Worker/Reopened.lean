/-
A subscription that is opened again (`worker/connections_worker.rs`,
`transport/sub_dedup.rs`).

A full CLOSE frees the window of a subscription.  The frames that are still on their way
make a new one, before anybody has opened the subscription again, and the next REQ finds
it: what came late is withheld from the new subscription.
-/
import Nipworker.Lib.History
import Nipworker.Worker.Connections

namespace Nipworker

open List Option

def eventFrameId (msg : String) : Option Bytes32 := (scanRelayFrame msg).bind scannedEventId

/-- A subscription, as the log tells: never closed in full; closed by a CLOSE of the parser
for no relay of its own, with the ids of the EVENT frames that came since; opened again by a REQ, with these and the ids of the
EVENT frames forwarded since the REQ. -/
inductive SubPhase
  | first
  | closed (late : List Bytes32)
  | reopened (late since : List Bytes32)
  deriving DecidableEq

namespace SubPhase

def received (id : Bytes32) (forwarded : Bool) : SubPhase → SubPhase
  | .first => .first
  | .closed late => .closed (id :: late)
  | .reopened late since => .reopened late (if forwarded then id :: since else since)

def requested : SubPhase → SubPhase
  | .closed late => .reopened late []
  | phase => phase

variable (serde : SerdeJson) (s : String)

def next (phase : SubPhase) : ConnectionsEffect → SubPhase
  | .sentRaw _ frame _ _ =>
    if relayFrameState serde frame = some ("REQ", s) then phase.requested else phase
  | .parserRaw url text =>
    if url = "" ∧ text ≠ "" ∧ relayFrameState serde text = some ("CLOSE", s) then .closed []
    else phase
  | .closedRelay _ => phase
  | .routed subId msg route =>
    match eventFrameId msg with
    | some id => if subId = s then phase.received id route.forwarded else phase
    | none => phase

def ofLog (log : List ConnectionsEffect) : SubPhase := log.foldl (next serde s) .first

theorem ofLog_concat (log : List ConnectionsEffect) (e : ConnectionsEffect) :
    ofLog serde s (log ++ [e]) = next serde s (ofLog serde s log) e := by
  rw [ofLog, foldl_append]
  rfl

end SubPhase

/-- A frame of the subscription is withheld after it was opened again, only if its id was
forwarded since. -/
def AfreshEntry (serde : SerdeJson) (s : String) (before : List ConnectionsEffect) :
    ConnectionsEffect → Prop
  | .routed subId msg .duplicate => subId = s → ∀ late since,
      SubPhase.ofLog serde s before = .reopened late since →
      ∃ id ∈ since, eventFrameId msg = some id
  | _ => True

/-- After the REQ that opens it again, only what was forwarded since is withheld. -/
def StartsAfresh (serde : SerdeJson) (s : String) (log : List ConnectionsEffect) : Prop :=
  History.Always (AfreshEntry serde s) log

/-- A frame that comes after the subscription was opened again does not have the id of a
frame that came between the CLOSE and the REQ. -/
def NoLateId (serde : SerdeJson) (s : String) (st : Connections)
    (input : ConnectionsEnv × ConnectionsAct) : Prop :=
  match input.2 with
  | .incoming _ subId msg => decodeRelaySubId st.writer.maps subId = s → ∀ late since,
      SubPhase.ofLog serde s st.log = .reopened late since →
      ∀ id, eventFrameId msg = some id → id ∉ late
  | _ => True

/-! ### Where the ids of a window come from -/

def SubPhase.Allows (id : Bytes32) : SubPhase → Prop
  | .first => True
  | .closed late => id ∈ late
  | .reopened late since => id ∈ late ∨ id ∈ since

/-- The window of the subscription holds what came since the CLOSE. -/
def WindowFresh (serde : SerdeJson) (s : String) (st : Connections) : Prop :=
  ∀ id ∈ (windowOf st.writer.dedup s).ids, (SubPhase.ofLog serde s st.log).Allows id

variable {serde : SerdeJson} {s : String} {env : ConnectionsEnv} {st : Connections}

variable {id : Bytes32}

theorem SubPhase.allows_requested {phase : SubPhase} (h : phase.Allows id) :
    phase.requested.Allows id := by
  cases phase with
  | first => trivial
  | closed late => exact .inl h
  | reopened late since => exact h

theorem SubPhase.allows_received {phase : SubPhase} {other : Bytes32} (forwarded : Bool)
    (h : phase.Allows id) : (phase.received other forwarded).Allows id := by
  cases phase with
  | first => trivial
  | closed late => exact mem_cons_of_mem other h
  | reopened late since =>
    cases forwarded with
    | false => exact h
    | true => exact h.imp_right (mem_cons_of_mem other)

theorem SubPhase.allows_self (phase : SubPhase) (id : Bytes32) :
    (phase.received id true).Allows id := by
  cases phase with
  | first => trivial
  | closed late => exact mem_cons_self
  | reopened late since => exact .inr mem_cons_self

theorem windowOf_erase (dedup : Map String SubDedup) (subId s : String) :
    windowOf (dedup.erase subId) s = if s = subId then SubDedup.new else windowOf dedup s := by
  rw [windowOf, Map.lookup_erase_ite]
  split
  · rfl
  · rfl

theorem mem_windowOf_erase {dedup : Map String SubDedup} {subId s : String}
    (h : id ∈ (windowOf (dedup.erase subId) s).ids) : id ∈ (windowOf dedup s).ids := by
  rw [windowOf_erase] at h
  split at h
  · cases h
  · exact h

theorem SubDedup.mem_mark {d : SubDedup} {other : Bytes32} (h : other ∈ (d.mark id).1.ids) :
    other ∈ d.ids ∨ (other = id ∧ (d.mark id).2 = true) := by
  rw [mark] at h ⊢
  split at h
  · exact .inl h
  · rename_i hnew
    rw [if_neg hnew]
    dsimp only at h ⊢
    have hmem : other ∈ insert id d.ids → other ∈ d.ids ∨ other = id := by
      intro hother
      exact (Finset.mem_insert.mp hother).symm
    split at h
    · rename_i hfull
      rw [if_pos hfull]
      split at h
      · exact (hmem h).imp_right fun heq => ⟨heq, rfl⟩
      · exact (hmem (Finset.mem_of_mem_erase h)).imp_right fun heq => ⟨heq, rfl⟩
    · rename_i hroom
      rw [if_neg hroom]
      exact (hmem h).imp_right fun heq => ⟨heq, rfl⟩

theorem SubDedup.mem_of_mark_false {d : SubDedup} (h : (d.mark id).2 = false) : id ∈ d.ids := by
  by_contra hnew
  rw [mark, if_neg hnew] at h
  dsimp only at h
  split at h
  · split at h
    · cases h
    · cases h
  · cases h

/-- **One frame.**  Its id is marked, or it has none for the window. -/
theorem route_spec (dedup : Map String SubDedup) (fullSubId msg : String) :
    ((route dedup fullSubId msg).2 = dedup ∧ (route dedup fullSubId msg).1 ≠ .duplicate) ∨
      ∃ id, eventFrameId msg = some id ∧
        (route dedup fullSubId msg).2 =
          dedup.insert fullSubId ((windowOf dedup fullSubId).mark id).1 ∧
        (if ((windowOf dedup fullSubId).mark id).2 then
          (route dedup fullSubId msg).1.forwarded = true
        else (route dedup fullSubId msg).1 = .duplicate) := by
  rw [route, eventFrameId]
  split
  · exact .inl ⟨rfl, by simp⟩
  · cases scanRelayFrame msg with
    | none => exact .inl ⟨rfl, by simp⟩
    | some scan =>
      dsimp only
      split
      · exact .inl ⟨rfl, by simp⟩
      · rw [bind_some]
        cases scannedEventId scan with
        | none =>
          -- an EVENT frame that is kept goes on as text or as a control frame
          refine .inl ⟨rfl, ?_⟩
          cases scan.args[1]? with
          | none => simp
          | some v =>
            dsimp only
            split
            · simp
            · simp
        | some id =>
          refine .inr ⟨id, rfl, rfl, ?_⟩
          dsimp only [windowOf]
          split
          · cases scan.args[1]? with
            | none => rfl
            | some v =>
              dsimp only
              split
              · rfl
              · rfl
          · rfl

/-! ### Steps -/

/-- The window and the log begin with the REQ. -/
structure Afresh (serde : SerdeJson) (s : String) (st : Connections) : Prop where
  window : WindowFresh serde s st
  log : StartsAfresh serde s st.log

theorem afresh_sentRaw {st' : Connections} {relay frame text : String} {ok : Bool}
    (h : Afresh serde s st) (hdedup : st'.writer.dedup = st.writer.dedup)
    (hlog : st'.log = st.log ++ [.sentRaw relay frame text ok]) : Afresh serde s st' := by
  refine ⟨fun id hid => ?_, ?_⟩
  · rw [hdedup] at hid
    rw [hlog, SubPhase.ofLog_concat, SubPhase.next]
    split
    · exact SubPhase.allows_requested (h.window id hid)
    · exact h.window id hid
  · rw [hlog]
    exact History.always_concat.mpr ⟨h.log, trivial⟩

theorem afresh_sendRaw (relay frame : String) (h : Afresh serde s st) :
    Afresh serde s (st.sendRaw serde env relay frame) :=
  afresh_sentRaw h rfl (Connections.sendRaw_log relay frame)

theorem afresh_releaseRelay (subId relay : String) (h : Afresh serde s st) :
    Afresh serde s (st.releaseRelay subId relay) := by
  refine ⟨fun id hid => ?_, ?_⟩
  · rw [Connections.releaseRelay_log]
    rcases Connections.releaseRelay_dedup subId relay with hsame | hfreed
    · rw [hsame] at hid
      exact h.window id hid
    · rw [hfreed] at hid
      exact h.window id (mem_windowOf_erase hid)
  · rw [Connections.releaseRelay_log]
    exact h.log

theorem afresh_sendEnvelope (envelope : Envelope) (h : Afresh serde s st) :
    Afresh serde s (st.sendEnvelope serde env envelope) :=
  Connections.sendEnvelope_inv (fun _ relay frame h => afresh_sendRaw relay frame h)
    (fun _ _ _ h => ⟨h.window, h.log⟩) (fun _ subId relay h => afresh_releaseRelay subId relay h)
    envelope h

theorem afresh_emit {url text : String} (h : Afresh serde s st)
    (hno : ¬ (url = "" ∧ text ≠ "" ∧ relayFrameState serde text = some ("CLOSE", s))) :
    Afresh serde s (st.emit (.parserRaw url text)) := by
  refine ⟨fun id hid => ?_, History.always_concat.mpr ⟨h.log, trivial⟩⟩
  show (SubPhase.ofLog serde s (st.log ++ [.parserRaw url text])).Allows id
  rw [SubPhase.ofLog_concat, SubPhase.next, if_neg hno]
  exact h.window id hid

theorem afresh_closeSub {subId text : String}
    (hclose : relayFrameState serde text = some ("CLOSE", subId)) (h : Afresh serde s st) :
    Afresh serde s ((st.emit (.parserRaw "" text)).closeSub serde env subId text) := by
  refine Connections.foldl_sendRaw_inv text (fun _ relay h => afresh_sendRaw relay text h) _ ?_
  refine ⟨fun id hid => ?_, History.always_concat.mpr ⟨h.log, trivial⟩⟩
  show (SubPhase.ofLog serde s (st.log ++ [.parserRaw "" text])).Allows id
  rw [SubPhase.ofLog_concat, SubPhase.next]
  have hid' : id ∈ (windowOf (st.writer.dedup.erase subId) s).ids := hid
  by_cases heq : s = subId
  · rw [windowOf_erase, if_pos heq] at hid'
    cases hid'
  · -- another subscription is closed
    rw [if_neg fun hfull => heq (Prod.mk.inj (some.inj (hfull.2.2.symm.trans hclose))).2]
    exact h.window id (mem_windowOf_erase hid')

theorem afresh_parserRaw (url text : String) (h : Afresh serde s st) :
    Afresh serde s ((st.emit (.parserRaw url text)).parserRaw serde env url text) := by
  rw [Connections.parserRaw]
  by_cases hboth : text ≠ "" ∧ url ≠ ""
  · have hsent : Afresh serde s ((st.emit (.parserRaw url text)).sendRaw serde env url text) :=
      afresh_sendRaw url text (afresh_emit h fun hfull => hboth.2 hfull.1)
    rw [if_pos hboth]
    dsimp only
    split
    · split
      · split
        · exact afresh_releaseRelay _ url hsent
        · exact hsent
      · exact hsent
    · exact hsent
  · rw [if_neg hboth]
    by_cases htext : text ≠ ""
    · rw [if_pos htext]
      obtain rfl : url = "" := not_not.mp fun hurl => hboth ⟨htext, hurl⟩
      cases hstate : relayFrameState serde text with
      | none => exact afresh_emit h fun hfull => nomatch hstate.symm.trans hfull.2.2
      | some state =>
        obtain ⟨kind, subId⟩ := state
        dsimp only
        by_cases hkind : kind = "CLOSE"
        · rw [if_pos hkind]
          exact afresh_closeSub (hkind ▸ hstate) h
        · rw [if_neg hkind]
          refine afresh_emit h fun hfull => hkind ?_
          exact (Prod.mk.inj (some.inj (hstate.symm.trans hfull.2.2))).1
    · rw [if_neg htext]
      exact afresh_emit h fun hfull => htext hfull.2.1

theorem windowFresh_incoming (url subId msg : String) (h : WindowFresh serde s st) :
    WindowFresh serde s (st.incoming env url subId msg) := by
  intro id hid
  set full := decodeRelaySubId st.writer.maps subId with hfull
  have hid' : id ∈ (windowOf (route st.writer.dedup full msg).2 s).ids := by
    have hdedup := outWriter_dedup st.writer url subId msg env.now
    rw [← hfull] at hdedup
    rw [← hdedup]
    exact hid
  show (SubPhase.ofLog serde s (st.log ++ [.routed full msg
    (route st.writer.dedup full msg).1])).Allows id
  rw [SubPhase.ofLog_concat, SubPhase.next]
  rcases route_spec st.writer.dedup full msg with ⟨hsame, -⟩ | ⟨marked, hmarked, hinsert, hroute⟩
  · rw [hsame] at hid'
    have hold := h id hid'
    split
    · split
      · exact SubPhase.allows_received _ hold
      · exact hold
    · exact hold
  · rw [hmarked]
    dsimp only
    rw [hinsert, windowOf, Map.lookup_insert_ite] at hid'
    by_cases hs : s = full
    · rw [if_pos hs, getD_some] at hid'
      rw [if_pos hs.symm]
      rcases SubDedup.mem_mark hid' with hold | ⟨rfl, hnew⟩
      · rw [← hs] at hold
        exact SubPhase.allows_received _ (h id hold)
      · rw [if_pos hnew] at hroute
        rw [hroute]
        exact SubPhase.allows_self _ id
    · rw [if_neg hs] at hid'
      rw [if_neg (Ne.symm hs)]
      exact h id hid'

theorem afreshEntry_incoming {url subId msg : String} (h : WindowFresh serde s st)
    (hlate : NoLateId serde s st (env, .incoming url subId msg)) :
    AfreshEntry serde s st.log (.routed (decodeRelaySubId st.writer.maps subId) msg
      (route st.writer.dedup (decodeRelaySubId st.writer.maps subId) msg).1) := by
  have hlate' : decodeRelaySubId st.writer.maps subId = s → ∀ late since,
      SubPhase.ofLog serde s st.log = .reopened late since →
      ∀ id, eventFrameId msg = some id → id ∉ late := hlate
  generalize decodeRelaySubId st.writer.maps subId = full at hlate'
  generalize hr : (route st.writer.dedup full msg).1 = r
  cases r with
  | duplicate =>
    rintro rfl late since hphase
    rcases route_spec st.writer.dedup full msg with ⟨-, hnot⟩ | ⟨id, hid, -, hroute⟩
    · exact absurd hr hnot
    · have hdup : ((windowOf st.writer.dedup full).mark id).2 = false := by
        by_contra hnew
        rw [Bool.not_eq_false] at hnew
        rw [if_pos hnew, hr] at hroute
        cases hroute
      have hallowed := h id (SubDedup.mem_of_mark_false hdup)
      rw [hphase] at hallowed
      exact ⟨id, hallowed.resolve_left (hlate' rfl late since hphase id hid), hid⟩
  | _ => trivial

theorem afresh_step (st : Connections) (input : ConnectionsEnv × ConnectionsAct)
    (h : Afresh serde s st) (hlate : NoLateId serde s st input) :
    Afresh serde s (st.step serde input) := by
  obtain ⟨env, act⟩ := input
  cases act with
  | envelope envelope => exact afresh_sendEnvelope envelope h
  | parserRaw url text => exact afresh_parserRaw url text h
  | publish url text =>
    show Afresh serde s (st.publish env url text)
    rw [Connections.publish]
    split
    · exact afresh_sentRaw h rfl rfl
    · exact h
  | closeRelay url =>
    show Afresh serde s (st.closeRelay url)
    rw [Connections.closeRelay]
    split
    · refine ⟨fun id hid => ?_, History.always_concat.mpr ⟨h.log, trivial⟩⟩
      show (SubPhase.ofLog serde s (st.log ++ [.closedRelay url])).Allows id
      rw [SubPhase.ofLog_concat]
      exact h.window id hid
    · exact h
  | incoming url subId msg =>
    exact ⟨windowFresh_incoming url subId msg h.window,
      History.always_concat.mpr ⟨h.log, afreshEntry_incoming h.window hlate⟩⟩
  | sweep => exact ⟨h.window, h.log⟩

/-- **A reopened subscription starts afresh**, in every run in which no frame that comes
after the REQ has the id of one that came between the full CLOSE and the REQ. -/
theorem reopened_starts_afresh (serde : SerdeJson) (s : String)
    (inputs : List (ConnectionsEnv × ConnectionsAct))
    (hlate : Run.Along (Connections.step serde) (NoLateId serde s) .new inputs) :
    StartsAfresh serde s (Run.exec (Connections.step serde) .new inputs).log := by
  have hnew : Afresh serde s Connections.new := ⟨fun _ _ => trivial, History.always_nil⟩
  exact (Run.Along.exec afresh_step hnew hlate).log

/-! ### Runs -/

/-- The ids that came late, once the subscription is open again. -/
def SubPhase.late : SubPhase → List Bytes32
  | .reopened late _ => late
  | _ => []

theorem noLateId_of_nil {input : ConnectionsEnv × ConnectionsAct}
    (h : (SubPhase.ofLog serde s st.log).late = []) : NoLateId serde s st input := by
  obtain ⟨env, act⟩ := input
  cases act with
  | incoming url subId msg =>
    intro _ late since hphase id _ hmem
    rw [hphase] at h
    have hlate : late = [] := h
    rw [hlate] at hmem
    cases hmem
  | _ => trivial

def connectionsSteps (acts : List ConnectionsAct) : List (ConnectionsEnv × ConnectionsAct) :=
  acts.map fun act => (⟨fun _ _ => true, .entries String, 0⟩, act)

/-- A REQ of `s1` to one relay. -/
def reqEnvelope : ConnectionsAct := .envelope ⟨["wss://r"], [frameText "REQ" "s1"]⟩

/-- An EVENT frame of `s1`. -/
def eventFrameText : String :=
  "[\"EVENT\",\"s1\",\x7b\"id\":\"efefefefefefefefefefefefefefefefefefefefefefefefefefefefefefefef\"\x7d]"

def eventOfS1 : ConnectionsAct := .incoming "wss://r" "s1" eventFrameText

/-- The event comes, and comes again after the subscription was closed and opened
again. -/
def reopenedAndRepeated : List (ConnectionsEnv × ConnectionsAct) :=
  connectionsSteps
    [reqEnvelope, eventOfS1, .parserRaw "" (frameText "CLOSE" "s1"), reqEnvelope, eventOfS1, eventOfS1]

/-- The second copy is forwarded, the third withheld. -/
theorem reopened_starts_afresh_repeated :
    SubPhase.ofLog frameSerde "s1"
        (Run.exec (Connections.step frameSerde) .new reopenedAndRepeated).log =
      .reopened [] [⟨List.replicate 32 0xef, rfl⟩] ∧
    StartsAfresh frameSerde "s1"
      (Run.exec (Connections.step frameSerde) .new reopenedAndRepeated).log := by
  refine ⟨by decide, reopened_starts_afresh frameSerde "s1" reopenedAndRepeated ?_⟩
  refine ⟨trivial, noLateId_of_nil (by decide), trivial, trivial,
    noLateId_of_nil (by decide), noLateId_of_nil (by decide), trivial⟩

/-- The event comes late, after the CLOSE, and again after the REQ that follows. -/
def lateAndRepeated : List (ConnectionsEnv × ConnectionsAct) :=
  connectionsSteps
    [reqEnvelope, .parserRaw "" (frameText "CLOSE" "s1"), eventOfS1, reqEnvelope, eventOfS1]

/-- The new subscription does not get the event. -/
theorem late_frame_withheld :
    ¬ StartsAfresh frameSerde "s1"
      (Run.exec (Connections.step frameSerde) .new lateAndRepeated).log := by
  intro h
  have hlog : (Run.exec (Connections.step frameSerde) .new lateAndRepeated).log =
      (Run.exec (Connections.step frameSerde) .new lateAndRepeated).log.take 5 ++
        .routed "s1" eventFrameText .duplicate :: [] := by
    decide
  have hphase : SubPhase.ofLog frameSerde "s1"
      ((Run.exec (Connections.step frameSerde) .new lateAndRepeated).log.take 5) =
      .reopened [⟨List.replicate 32 0xef, rfl⟩] [] := by
    decide
  -- nothing was forwarded since the REQ
  obtain ⟨id, hid, -⟩ := h _ _ _ hlog rfl _ _ hphase
  cases hid

end Nipworker
