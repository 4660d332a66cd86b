/-
The line of a subscription from end to end (`worker/connections_worker.rs`,
`worker/parser_worker.rs`).

The writer puts an event at the far end of the line and flushes it before a
control frame; the two channels to the parser are queues.
-/
import Nipworker.Worker.OrderLanes

namespace Nipworker

open Conveyor List

variable {side : Side} {s : String} {since : ℕ} {home : ℕ × Bool} {env : LanesEnv}

/-! ### The channels to the parser -/

theorem pick_network (o : ℕ) (k : String) : pick .cache s since ⟨k, .network o⟩ = none := by
  simp [pick, Side.number]

theorem pick_cache (o : ℕ) (k : String) : pick .network s since ⟨k, .cache o⟩ = none := by
  simp [pick, Side.number]

theorem picks_packet_cache (packet : ConnPacket) : picks .cache s since packet.origins = [] := by
  cases packet with
  | rawBatch subId frames =>
    refine List.filterMap_eq_nil_iff.mpr fun o ho => ?_
    obtain ⟨f, -, rfl⟩ := List.mem_map.mp ho
    exact pick_network _ _
  | control number subId url msg =>
    rw [ConnPacket.origins, FrontStep.picks_singleton, pick_network]
    rfl
  | relayStatus status url =>
    rw [ConnPacket.origins, FrontStep.picks_singleton]
    by_cases hs : "" = s
    · subst hs
      rw [pick_own]
      rfl
    · rw [pick_of_ne hs]
      rfl

theorem picks_packets_cache (packets : List ConnPacket) :
    picks .cache s since (packets.flatMap ConnPacket.origins) = [] := by
  induction packets with
  | nil => rfl
  | cons packet rest ih => rw [flatMap_cons, picks_append, picks_packet_cache, ih]; rfl

theorem picks_responses_network (responses : List (ℕ × CacheResponse)) :
    picks .network s since (responses.map fun p => ⟨p.2.subId, .cache p.1⟩) = [] := by
  refine List.filterMap_eq_nil_iff.mpr fun o ho => ?_
  obtain ⟨p, -, rfl⟩ := List.mem_map.mp ho
  exact pick_cache _ _

theorem picks_rawBatch (subId : String) (payload : Option (List RawFrame)) :
    picks side s since ((payload.toList.map (ConnPacket.rawBatch subId)).flatMap
        ConnPacket.origins) =
      (payload.getD []).filterMap fun f => pick side s since ⟨subId, .network f.number⟩ := by
  cases payload with
  | none => rfl
  | some frames =>
    show picks side s since (frames.map _ ++ []) = _
    rw [append_nil, picks, filterMap_map]
    rfl

/-- What the writer does with a frame. -/
theorem conveys_outWriter (side : Side) (s : String) (since : ℕ) (w : StampedWriter) (number : ℕ)
    (url subId msg : String) (now : ℕ) : Conveys
      (((w.parserBatches.items s).filterMap fun f => pick side s since ⟨s, .network f.number⟩) ++
        (pick side s since ⟨decodeRelaySubId w.maps subId, .network number⟩).toList)
      (picks side s since
          ((w.outWriter number url subId msg now).2.flatMap ConnPacket.origins) ++
        ((w.outWriter number url subId msg now).1.parserBatches.items s).filterMap fun f =>
          pick side s since ⟨s, .network f.number⟩) := by
  unfold StampedWriter.outWriter
  dsimp only
  generalize decodeRelaySubId w.maps subId = full
  cases (route w.dedup full msg).1 with
  | crypto => exact Conveys.of_sublist (sublist_append_left _ _)
  | duplicate => exact Conveys.of_sublist (sublist_append_left _ _)
  | raw eventJson =>
    dsimp only
    rw [picks_rawBatch]
    by_cases hs : s = full
    · subst hs
      have hsub := (StampedBatches.addMessage_sublist RawFrame.enc w.parserBatches s
        ⟨number, String.ofList eventJson⟩ now).filterMap
        fun f => pick side s since ⟨s, .network f.number⟩
      rw [filterMap_append, filterMap_append] at hsub
      have hone : [(⟨number, String.ofList eventJson⟩ : RawFrame)].filterMap
          (fun f => pick side s since ⟨s, .network f.number⟩)
          = (pick side s since ⟨s, .network number⟩).toList := by
        rw [filterMap_cons]
        dsimp only
        cases pick side s since ⟨s, .network number⟩ <;> rfl
      rw [hone] at hsub
      exact Conveys.of_sublist hsub
    · have hnone : ∀ n, pick side s since ⟨full, .network n⟩ = none :=
        fun n => pick_of_ne (Ne.symm hs)
      rw [StampedBatches.items_addMessage_ne _ _ hs]
      simp only [hnone]
      rw [List.filterMap_eq_nil_iff.mpr fun _ _ => rfl]
      exact Conveys.of_sublist (sublist_append_left _ _)
  | control =>
    dsimp only
    rw [flatMap_append, picks_append, picks_rawBatch]
    have hlast : picks side s since
        ([ConnPacket.control number full url msg].flatMap ConnPacket.origins) =
        (pick side s since ⟨full, .network number⟩).toList := FrontStep.picks_singleton _
    rw [hlast]
    by_cases hs : s = full
    · subst hs
      -- the buffer goes out before the control frame and is empty then
      have hflush := StampedBatches.flushSub_items w.parserBatches s
      rw [StampedBatches.items_flushSub_self, append_nil] at hflush
      rw [StampedBatches.items_flushSub_self, hflush, filterMap_nil, append_nil]
      exact Conveys.refl _
    · have hnone : ∀ n, pick side s since ⟨full, .network n⟩ = none :=
        fun n => pick_of_ne (Ne.symm hs)
      rw [StampedBatches.items_flushSub_ne _ hs]
      simp only [hnone]
      rw [List.filterMap_eq_nil_iff.mpr fun _ _ => rfl]
      exact Conveys.of_sublist (sublist_append_left _ _)

/-! ### One step -/

def LanesAct.enters (st : Lanes) : LanesAct → List Origin
  | .frame _ subId _ _ =>
    [⟨decodeRelaySubId st.writer.maps subId, .network st.arrivals.length⟩]
  | .cacheResponse response => [⟨response.subId, .cache st.responses.length⟩]
  | _ => []

/-- A step moves along what is on the line, and lets new numbers join behind. -/
structure TrailStep (side : Side) (s : String) (since : ℕ) (home : ℕ × Bool) (entering : List ℕ)
    (st st' : Lanes) : Prop where
  housed : Housed side s since home st'
  conveys : Conveys (st.trail side s since home ++ entering) (st'.trail side s since home)

namespace TrailStep

variable {st st' : Lanes}

theorem of_front (h : FrontStep side s since home st st')
    (hback : st'.back side s since = st.back side s since) :
    TrailStep side s since home [] st st' := by
  refine ⟨h.housed, ?_⟩
  rw [append_nil, Lanes.trail, Lanes.trail, hback]
  exact h.conveys.append (Conveys.refl _)

theorem of_back {entering : List ℕ} (h : Housed side s since home st)
    (hport : st'.port = st.port) (hshard : st'.shard = st.shard) (hlane : st'.lane = st.lane)
    (hingress : st'.ingress = st.ingress)
    (hback : Conveys (st.back side s since ++ entering) (st'.back side s since)) :
    TrailStep side s since home entering st st' := by
  have hsame := FrontStep.same h hport (fun i => by rw [hshard]) hlane hingress
  refine ⟨hsame.housed, ?_⟩
  rw [Lanes.trail, Lanes.trail, append_assoc]
  exact hsame.conveys.append hback

theorem frame (h : Housed side s since home st) (url subId msg : String) (now : ℕ) :
    TrailStep side s since home
      (picks side s since ((LanesAct.frame url subId msg now).enters st)) st
      (st.frame url subId msg now) := by
  refine of_back h rfl rfl rfl rfl ?_
  have hwriter := conveys_outWriter side s since st.writer st.arrivals.length url subId msg now
  show Conveys _ (picks side s since ((st.fromConnections ++ _).flatMap ConnPacket.origins) ++ _ ++ _)
  rw [Lanes.back, LanesAct.enters, FrontStep.picks_singleton, flatMap_append, picks_append,
    append_assoc _ (picks side s since _) (List.filterMap _ _)]
  cases side with
  | network =>
    -- nothing of the cache stands between the writer's buffer and the end
    rw [picks_responses_network, picks_responses_network, append_nil, append_nil,
      append_assoc]
    exact (Conveys.refl _).append hwriter
  | cache =>
    rw [pick_network, Option.toList_none, append_nil] at hwriter ⊢
    exact ((Conveys.refl _).append hwriter).append (Conveys.refl _)

theorem sweepConnections (h : Housed side s since home st) (iter : IterOrder String) (now : ℕ) :
    TrailStep side s since home [] st (st.sweepConnections iter now) := by
  refine of_back h rfl rfl rfl rfl ?_
  obtain ⟨hline, -⟩ := StampedBatches.drainTimedOut_picks
    (fun k f => pick side s since ⟨k, .network (RawFrame.number f)⟩) st.writer.parserBatches
    (fun k hk => List.filterMap_eq_nil_iff.mpr fun f _ => pick_of_ne hk) iter now
  have hsent : ∀ payloads : List (String × List RawFrame),
      picks side s since ((payloads.map fun p => ConnPacket.rawBatch p.1 p.2).flatMap
        ConnPacket.origins) =
      StampedBatches.picks (fun k f => pick side s since ⟨k, .network (RawFrame.number f)⟩)
        payloads := by
    intro payloads
    induction payloads with
    | nil => rfl
    | cons p rest ih =>
      rw [map_cons, flatMap_cons, picks_append, ih]
      show picks side s since (p.2.map _) ++ _ = p.2.filterMap _ ++ _
      rw [picks, filterMap_map]
      rfl
  show Conveys _ (picks side s since ((st.fromConnections ++ _).flatMap ConnPacket.origins) ++
    ((st.writer.parserBatches.drainTimedOut iter now).1.items s).filterMap _ ++ _)
  rw [append_nil, Lanes.back, flatMap_append, picks_append, hsent,
    append_assoc _ (StampedBatches.picks _ _), hline]
  exact Conveys.refl _

theorem relayStatus (h : Housed side s since home st) (status url : String) :
    TrailStep side s since home [] st
      { st with fromConnections := st.fromConnections ++ [.relayStatus status url] } := by
  refine of_back h rfl rfl rfl rfl ?_
  have hnone : picks side s since ([ConnPacket.relayStatus status url].flatMap
      ConnPacket.origins) = [] := by
    show picks side s since [⟨"", .own⟩] = []
    rw [FrontStep.picks_singleton]
    by_cases hs : "" = s
    · subst hs
      rw [pick_own]
      rfl
    · rw [pick_of_ne hs]
      rfl
  show Conveys _ (picks side s since ((st.fromConnections ++ _).flatMap ConnPacket.origins) ++ _ ++ _)
  rw [append_nil, Lanes.back, flatMap_append, picks_append, hnone, append_nil]
  exact Conveys.refl _

theorem cacheResponse (h : Housed side s since home st) (response : CacheResponse) :
    TrailStep side s since home
      (picks side s since ((LanesAct.cacheResponse response).enters st)) st
      { st with
        responses := st.responses ++ [response]
        fromCache := st.fromCache ++ [(st.responses.length, response)] } := by
  refine of_back h rfl rfl rfl rfl ?_
  show Conveys _ (_ ++ _ ++ picks side s since ((st.fromCache ++ _).map _))
  rw [Lanes.back, map_append, picks_append, ← append_assoc]
  exact Conveys.refl _

theorem origins_frames (packet : ConnPacket) :
    (Lanes.frames packet).map (fun item => item.task.origin) = packet.origins := by
  cases packet with
  | rawBatch subId frames =>
    rw [Lanes.frames, map_map]
    rfl
  | control number subId url msg => rfl
  | relayStatus status url => rfl

theorem receiveConnections (h : Housed side s since home st) :
    TrailStep side s since home [] st st.receiveConnections := by
  unfold Lanes.receiveConnections
  split
  · next packet rest hingress hpackets =>
    refine ⟨⟨h.buffers, h.shards, h.lanes, h.laneHome, fun i b task hmem => ?_, h.unnamed⟩, ?_⟩
    · -- frames of the network are not routed yet
      exfalso
      cases packet with
      | rawBatch subId frames =>
        obtain ⟨f, -, hf⟩ := List.mem_map.mp hmem
        cases hf
      | control number subId url msg => cases List.mem_singleton.mp hmem
      | relayStatus status url => cases List.mem_singleton.mp hmem
    · rw [Lanes.trail, Lanes.trail, Lanes.front, Lanes.front, Lanes.back, Lanes.back, hingress,
        hpackets, append_nil, flatMap_cons, picks_append]
      dsimp only
      rw [origins_frames]
      simp only [map_nil, picks_nil, append_nil, append_assoc]
      exact Conveys.refl _
  · exact of_front (FrontStep.same h rfl (fun _ => rfl) rfl rfl) rfl

theorem receiveCache (h : Housed side s since home st)
    (hopen : st.trail side s since home ≠ [] → OpenAt env s home st) :
    TrailStep side s since home [] st (st.receiveCache env) := by
  unfold Lanes.receiveCache
  split
  · next number response rest hingress hresponses =>
    have hfirst : picks side s since (st.fromCache.map fun p => ⟨p.2.subId, .cache p.1⟩) =
        (pick side s since ⟨response.subId, .cache number⟩).toList ++
          picks side s since (rest.map fun p => ⟨p.2.subId, .cache p.1⟩) := by
      rw [hresponses, map_cons, picks_cons]
    split
    · refine of_back h rfl rfl rfl rfl ?_
      rw [append_nil, Lanes.back, hfirst]
      exact (Conveys.refl _).append (Conveys.of_sublist (sublist_append_right _ _))
    · next hsid =>
      have horigin : ∀ task ∈ Lanes.responseTasks env number response,
          task.origin = ⟨response.subId, .cache number⟩ := by
        intro task htask
        unfold Lanes.responseTasks at htask
        split at htask
        · rw [List.mem_singleton.mp htask]
          rfl
        · obtain ⟨bytes, -, rfl⟩ := List.mem_map.mp htask
          rfl
      have htasks : ∀ o ∈ ((Lanes.responseTasks env number response).map
          (IngressItem.routed (laneOf env.hash st.subs response.subId).1
            (laneOf env.hash st.subs response.subId).2)).map fun item => item.task.origin,
          o = ⟨response.subId, .cache number⟩ := by
        intro o ho
        rw [map_map] at ho
        obtain ⟨task, htask, rfl⟩ := List.mem_map.mp ho
        exact horigin task htask
      have hcopies := @conveys_same_origin side s since _ _ htasks
      refine ⟨⟨h.buffers, h.shards, h.lanes, h.laneHome, fun i b task hmem hpick => ?_,
        h.unnamed⟩, ?_⟩
      · obtain ⟨task', htask', hrouted⟩ := List.mem_map.mp hmem
        cases hrouted
        rw [horigin task htask'] at hpick
        have hsub : response.subId = s := subId_of_pick hpick
        have hhome := (hopen fun hnil => hpick ?_).1
        · rw [hsub, hhome]
          exact ⟨rfl, fun hs => hsid (hsub.trans hs)⟩
        · have hnil := (List.append_eq_nil_iff.mp (List.append_eq_nil_iff.mp hnil).2).2
          rw [hfirst] at hnil
          exact Option.toList_eq_nil_iff.mp (List.append_eq_nil_iff.mp hnil).1
      · rw [Lanes.trail, Lanes.trail, Lanes.front, Lanes.front, Lanes.back, Lanes.back, hfirst,
          hingress, append_nil]
        dsimp only
        cases side with
        | network =>
          rw [pick_cache, Option.toList_none] at hcopies ⊢
          rw [List.subset_nil.mp hcopies.subset, nil_append]
          exact Conveys.refl _
        | cache =>
          -- nothing of the network stands before the response
          have hwriter : ((st.writer.parserBatches.items s).filterMap fun f =>
              pick .cache s since ⟨s, .network f.number⟩) = [] :=
            List.filterMap_eq_nil_iff.mpr fun f _ => pick_network _ _
          rw [picks_packets_cache, hwriter]
          simp only [map_nil, picks_nil, append_nil, nil_append, append_assoc]
          exact (Conveys.refl _).append ((Conveys.refl _).append ((Conveys.refl _).append
            (hcopies.append (Conveys.refl _))))
  · exact of_front (FrontStep.same h rfl (fun _ => rfl) rfl rfl) rfl

end TrailStep

/-! ### What the parser's own steps leave alone -/

/-- The connections side and the channels to the parser are as they were. -/
structure SameUpstream (st st' : Lanes) : Prop where
  writer : st'.writer = st.writer
  arrivals : st'.arrivals = st.arrivals
  fromConnections : st'.fromConnections = st.fromConnections
  responses : st'.responses = st.responses
  fromCache : st'.fromCache = st.fromCache

namespace SameUpstream

variable {st st' : Lanes}

theorem rfl' (st : Lanes) : SameUpstream st st := ⟨rfl, rfl, rfl, rfl, rfl⟩

theorem back (h : SameUpstream st st') : st'.back side s since = st.back side s since := by
  rw [Lanes.back, Lanes.back, h.writer, h.fromConnections, h.fromCache]

theorem finishEose (task : ShardTask) (url : String) (outputs : List Bytes) (now : ℕ) :
    SameUpstream st (st.finishEose env task url outputs now) := by
  unfold Lanes.finishEose
  split
  · exact ⟨rfl, rfl, rfl, rfl, rfl⟩
  · split <;> exact ⟨rfl, rfl, rfl, rfl, rfl⟩

theorem ingressNext (now : ℕ) : SameUpstream st (st.ingressNext env now) := by
  unfold Lanes.ingressNext
  split
  · exact ⟨rfl, rfl, rfl, rfl, rfl⟩
  · exact ⟨rfl, rfl, rfl, rfl, rfl⟩
  · dsimp only
    split
    · split <;> exact ⟨rfl, rfl, rfl, rfl, rfl⟩
    · exact ⟨rfl, rfl, rfl, rfl, rfl⟩

theorem dispatch (slow : Bool) : SameUpstream st (st.dispatch slow) := by
  unfold Lanes.dispatch
  split <;> exact ⟨rfl, rfl, rfl, rfl, rfl⟩

theorem shardPull (idx : ℕ) : SameUpstream st (st.shardPull idx) := by
  unfold Lanes.shardPull
  split <;> exact ⟨rfl, rfl, rfl, rfl, rfl⟩

theorem of_handled {idx now : ℕ} {task : ShardTask} (h : Handled env st idx task now st') :
    SameUpstream st st' := by
  cases h with
  | ignored => exact rfl' st
  | waits call => exact ⟨rfl, rfl, rfl, rfl, rfl⟩
  | eose url => exact finishEose task url [] now
  | status url status reason => exact ⟨rfl, rfl, rfl, rfl, rfl⟩

theorem shardStart (idx now : ℕ) : SameUpstream st (st.shardStart env idx now) := by
  unfold Lanes.shardStart
  split
  · next task rest _ _ =>
    have h := of_handled (handled_handleMessageSingle env
      (st.setShard idx { st.shard idx with batch := rest }) idx task now)
    exact ⟨h.writer, h.arrivals, h.fromConnections, h.responses, h.fromCache⟩
  · exact rfl' st

theorem shardFinish (idx : ℕ) (outputs : List Bytes) (now : ℕ) :
    SameUpstream st (st.shardFinish env idx outputs now) := by
  unfold Lanes.shardFinish
  split
  · exact rfl' st
  · next task call _ =>
    cases call with
    | flushEose url =>
      have h := @finishEose env (st.setShard idx { st.shard idx with running := none }) task url
        outputs now
      exact ⟨h.writer, h.arrivals, h.fromConnections, h.responses, h.fromCache⟩
    | _ => exact ⟨rfl, rfl, rfl, rfl, rfl⟩

theorem openSubscription (subId : String) (closeOnEose isSlow ok : Bool) :
    SameUpstream st (st.openSubscription subId closeOnEose isSlow ok) := by
  unfold Lanes.openSubscription
  split <;> exact ⟨rfl, rfl, rfl, rfl, rfl⟩

end SameUpstream

/-- **One step**: a number that arrives joins the line at its far end, and
nothing overtakes. -/
theorem trailStep {st : Lanes} (h : Housed side s since home st)
    (hopen : st.trail side s since home ≠ [] → OpenAt env s home st) (act : LanesAct) :
    TrailStep side s since home (picks side s since (act.enters st)) st (st.step env act) := by
  have hfront : st.front side s since home ≠ [] → OpenAt env s home st :=
    fun hne => hopen fun hnil => hne (List.append_eq_nil_iff.mp hnil).1
  cases act with
  | frame url subId msg now => exact .frame h url subId msg now
  | relayStatus status url => exact .relayStatus h status url
  | register frame => exact .of_front (.same h rfl (fun _ => rfl) rfl rfl) rfl
  | release subId => exact .of_front (.same h rfl (fun _ => rfl) rfl rfl) rfl
  | sweepConnections iter now => exact .sweepConnections h iter now
  | cacheResponse response => exact .cacheResponse h response
  | receiveConnections => exact .receiveConnections h
  | receiveCache => exact .receiveCache h hopen
  | ingressNext now => exact .of_front (.ingressNext h hfront) (SameUpstream.ingressNext now).back
  | dispatch slow => exact .of_front (.dispatch h) (SameUpstream.dispatch slow).back
  | shardPull idx => exact .of_front (.shardPull h) (SameUpstream.shardPull idx).back
  | shardStart idx now => exact .of_front (.shardStart h hfront) (SameUpstream.shardStart idx now).back
  | shardFinish idx outputs now =>
    exact .of_front (.shardFinish h) (SameUpstream.shardFinish idx outputs now).back
  | sweepMain iter now =>
    exact .of_front (.port h (MainPort.feeds_flushTimedOutBatches h.buffers iter now) pick_own
      rfl rfl rfl) rfl
  | openSubscription subId closeOnEose isSlow ok =>
    refine .of_front ?_ (SameUpstream.openSubscription subId closeOnEose isSlow ok).back
    show FrontStep side s since home st (st.openSubscription subId closeOnEose isSlow ok)
    unfold Lanes.openSubscription
    split <;> exact .same h rfl (fun _ => rfl) rfl rfl
  | closeSubscription subId =>
    exact .of_front (.port h (MainPort.feeds_flushMain h.buffers subId) pick_own rfl rfl rfl) rfl
  | publishEvent publishId eventId => exact .of_front (.same h rfl (fun _ => rfl) rfl rfl) rfl
  | injectOptimisticEvent subId output now =>
    have hown : pick side s since ⟨subId, .own⟩ = none := by
      by_cases hs : subId = s
      · subst hs
        exact pick_own
      · exact pick_of_ne hs
    exact .of_front (.port h (feeds_last env h.buffers ⟨subId, .own⟩ subId (fun _ => hown) _ now)
      hown rfl rfl rfl) rfl

end Nipworker
