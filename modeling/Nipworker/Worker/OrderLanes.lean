/-
The line of a subscription inside the parser (`worker/parser_worker.rs`).

Every frame of a subscription takes the same lane to the same shard, and both are
queues, so the ingress task, the dispatchers and the shards hand the numbers on in
the order they found them in.
-/
import Nipworker.Worker.OrderLine

namespace Nipworker

open Conveyor List Option

variable {side : Side} {s : String} {since : ℕ} {home : ℕ × Bool} {env : LanesEnv}

/-! ### Inside the parser -/

/-- A step that changes nothing before the ingress task but what it hands on. -/
structure FrontStep (side : Side) (s : String) (since : ℕ) (home : ℕ × Bool) (st st' : Lanes) :
    Prop where
  housed : Housed side s since home st'
  conveys : Conveys (st.front side s since home) (st'.front side s since home)

namespace FrontStep

variable {st st' : Lanes}

theorem same (h : Housed side s since home st) (hport : st'.port = st.port)
    (hshard : ∀ i, (st'.shard i).origins = (st.shard i).origins) (hlane : st'.lane = st.lane)
    (hingress : st'.ingress = st.ingress) : FrontStep side s since home st st' := by
  refine ⟨⟨?_, fun i hi => ?_, ?_, ?_, ?_, ?_⟩, ?_⟩
  · rw [hport]
    exact h.buffers
  · rw [hshard]
    exact h.shards i hi
  · rw [hlane]
    exact h.lanes
  · rw [hlane]
    exact h.laneHome
  · rw [hingress]
    exact h.routed
  · rw [hshard, hlane]
    exact h.unnamed
  · rw [Lanes.front, Lanes.front, hport, hshard, hlane, hingress]
    exact Conveys.refl _

theorem port {o : Origin} (h : Housed side s since home st)
    (hfeeds : Feeds side s since o st.port st'.port) (ho : pick side s since o = none)
    (hshard : st'.shard = st.shard) (hlane : st'.lane = st.lane)
    (hingress : st'.ingress = st.ingress) : FrontStep side s since home st st' := by
  refine ⟨⟨hfeeds.buffers, ?_, ?_, ?_, ?_, ?_⟩, ?_⟩
  · rw [hshard]
    exact h.shards
  · rw [hlane]
    exact h.lanes
  · rw [hlane]
    exact h.laneHome
  · rw [hingress]
    exact h.routed
  · rw [hshard, hlane]
    exact h.unnamed
  · rw [Lanes.front, Lanes.front, hshard, hlane, hingress]
    exact (hfeeds.of_eq ho).append (Conveys.refl _)

variable {idx : ℕ}

theorem leave {o : Origin} {shard : Shard} (h : Housed side s since home st)
    (hfirst : (st.shard idx).origins = o :: shard.origins)
    (hfeeds : Feeds side s since o st.port st'.port)
    (hshard : st'.shard = Function.update st.shard idx shard) (hlane : st'.lane = st.lane)
    (hingress : st'.ingress = st.ingress) : FrontStep side s since home st st' := by
  by_cases hidx : home.1 = idx
  · have hhome : st'.shard home.1 = shard := by
      rw [hshard, hidx, Function.update_self]
    have hold : picks side s since (st.shard home.1).origins
        = (pick side s since o).toList ++ picks side s since shard.origins := by
      rw [hidx, hfirst, picks_cons]
    refine ⟨⟨hfeeds.buffers, fun i hi => ?_, ?_, ?_, ?_, fun hs => ?_⟩, ?_⟩
    · rw [hshard, Function.update_of_ne (by rwa [← hidx])]
      exact h.shards i hi
    · rw [hlane]
      exact h.lanes
    · rw [hlane]
      exact h.laneHome
    · rw [hingress]
      exact h.routed
    · have hnone := h.unnamed hs
      rw [hold] at hnone
      rw [hhome, hlane]
      exact ⟨(List.append_eq_nil_iff.mp hnone.1).2, hnone.2⟩
    · rw [Lanes.front, Lanes.front, hhome, hold, hlane, hingress, append_assoc _ _ (_ ++ _),
        ← append_assoc _ (Option.toList _)]
      exact hfeeds.conveys.append (Conveys.refl _)
  · -- another shard has nothing of the subscription
    have hnone := h.shards idx (Ne.symm hidx)
    rw [hfirst, picks_cons] at hnone
    obtain ⟨ho, hrest⟩ := List.append_eq_nil_iff.mp hnone
    have ho : pick side s since o = none := by
      cases hpick : pick side s since o with
      | none => rfl
      | some n =>
        rw [hpick] at ho
        cases ho
    have hhome : st'.shard home.1 = st.shard home.1 := by
      rw [hshard, Function.update_of_ne hidx]
    refine ⟨⟨hfeeds.buffers, fun i hi => ?_, ?_, ?_, ?_, ?_⟩, ?_⟩
    · rw [hshard]
      by_cases hi' : i = idx
      · rw [hi', Function.update_self]
        exact hrest
      · rw [Function.update_of_ne hi']
        exact h.shards i hi
    · rw [hlane]
      exact h.lanes
    · rw [hlane]
      exact h.laneHome
    · rw [hingress]
      exact h.routed
    · rw [hhome, hlane]
      exact h.unnamed
    · rw [Lanes.front, Lanes.front, hhome, hlane, hingress]
      exact (hfeeds.of_eq ho).append (Conveys.refl _)

theorem picks_singleton (o : Origin) : picks side s since [o] = (pick side s since o).toList :=
  (picks_cons o []).trans (append_nil _)

/-- One place gets something more at its end. -/
theorem picks_update {ι β : Type} [DecidableEq ι] (os : β → List Origin) {f : ι → β} {k : ι} {v : β}
    {o : Origin} (hv : os v = os (f k) ++ [o]) (i : ι) :
    picks side s since (os (Function.update f k v i)) =
      picks side s since (os (f i)) ++ if i = k then (pick side s since o).toList else [] := by
  by_cases hi : i = k
  · rw [hi, Function.update_self, hv, picks_append, picks_singleton, if_pos rfl]
  · rw [Function.update_of_ne hi, if_neg hi, append_nil]

theorem not_entering {ι : Type} [DecidableEq ι] {i k own : ι} {o : Origin}
    (hdest : pick side s since o ≠ none → k = own) (hi : i ≠ own) :
    (if i = k then (pick side s since o).toList else []) = [] := by
  split
  · next hik =>
    refine Option.toList_eq_nil_iff.mpr ?_
    by_contra hpick
    exact hi (hik.trans (hdest hpick))
  · rfl

theorem enqueue {item : IngressItem} {rest : List IngressItem} {slow : Bool}
    (h : Housed side s since home st) (hfirst : st.ingress = item :: rest)
    (hdest : pick side s since item.task.origin ≠ none → (idx, slow) = home ∧ s ≠ "") :
    FrontStep side s since home st ({ st with ingress := rest }.enqueue idx slow item.task) := by
  have hingress : picks side s since (st.ingress.map fun item => item.task.origin)
      = (pick side s since item.task.origin).toList ++
        picks side s since (rest.map fun item => item.task.origin) := by
    rw [hfirst, map_cons, picks_cons]
  have hlane : ∀ b, picks side s since
        ((Function.update st.lane slow (st.lane slow ++ [(idx, item.task)]) b).map
          fun p => p.2.origin) =
      picks side s since ((st.lane b).map fun p => p.2.origin) ++
        if b = slow then (pick side s since item.task.origin).toList else [] :=
    picks_update (fun lane : List (ℕ × ShardTask) => lane.map fun p => p.2.origin) map_append
  refine ⟨⟨h.buffers, h.shards, fun b hb => ?_, fun p hp hpick => ?_, fun i b task hmem => ?_,
    fun hs => ?_⟩, ?_⟩
  · show picks side s since (((Function.update st.lane slow _) b).map _) = []
    rw [hlane, h.lanes b hb, nil_append]
    exact not_entering (fun hpick => congrArg Prod.snd (hdest hpick).1) hb
  · have hp : p ∈ Function.update st.lane slow (st.lane slow ++ [(idx, item.task)]) home.2 := hp
    by_cases hb : home.2 = slow
    · rw [hb, Function.update_self] at hp
      rcases List.mem_append.mp hp with hp | hp
      · exact h.laneHome p (by rwa [hb]) hpick
      · obtain rfl := List.mem_singleton.mp hp
        exact congrArg Prod.fst (hdest hpick).1
    · rw [Function.update_of_ne hb] at hp
      exact h.laneHome p hp hpick
  · exact h.routed i b task (by rw [hfirst]; exact mem_cons_of_mem _ hmem)
  · have hnone : pick side s since item.task.origin = none := by
      by_contra hpick
      exact (hdest hpick).2 hs
    obtain ⟨hshards, hlanes⟩ := h.unnamed hs
    refine ⟨hshards, ?_⟩
    show picks side s since (((Function.update st.lane slow _) home.2).map _) = []
    rw [hlane, hlanes, hnone]
    split <;> rfl
  · show Conveys _ (st.port.line side s since ++ (picks side s since (st.shard home.1).origins ++
      (picks side s since (((Function.update st.lane slow _) home.2).map _) ++ _)))
    rw [Lanes.front, hlane, hingress, append_assoc _ (ite _ _ _)]
    refine (Conveys.refl _).append ((Conveys.refl _).append ((Conveys.refl _).append ?_))
    -- the number enters the lane of the subscription, or there is none
    cases hpick : pick side s since item.task.origin with
    | none =>
      split <;> exact Conveys.refl _
    | some n =>
      obtain ⟨rfl, -⟩ := hdest (by rw [hpick]; exact some_ne_none n)
      rw [if_pos rfl]
      exact Conveys.refl _

theorem origins_queue (shard : Shard) (task : ShardTask) :
    Shard.origins { shard with queue := shard.queue ++ [task] } = shard.origins ++ [task.origin] := by
  simp only [Shard.origins, map_append, map_cons, map_nil, append_assoc]

theorem lane_cons {b : Bool} {task : ShardTask} {rest : List (ℕ × ShardTask)}
    (hlane : st.lane b = (idx, task) :: rest) :
    picks side s since ((st.lane b).map fun p => p.2.origin) =
      (pick side s since task.origin).toList ++
        picks side s since (rest.map fun p => p.2.origin) := by
  rw [hlane, map_cons, picks_cons]

theorem first_of_lane {slow : Bool} {task : ShardTask} {rest : List (ℕ × ShardTask)}
    (h : Housed side s since home st) (hlane : st.lane slow = (idx, task) :: rest)
    (hpick : pick side s since task.origin ≠ none) : (idx, slow) = home ∧ s ≠ "" := by
  have hpos : picks side s since ((st.lane slow).map fun p => p.2.origin) ≠ [] := by
    rw [lane_cons hlane]
    intro hnil
    have hnone := (List.append_eq_nil_iff.mp hnil).1
    exact hpick (Option.toList_eq_nil_iff.mp hnone)
  have hslow : slow = home.2 := by
    by_contra hne
    exact hpos (h.lanes slow hne)
  subst hslow
  have hidx : idx = home.1 :=
    h.laneHome (idx, task) (by rw [hlane]; exact mem_cons_self) hpick
  subst hidx
  exact ⟨rfl, fun hs => hpos (h.unnamed hs).2⟩

theorem dispatch {slow : Bool} (h : Housed side s since home st) :
    FrontStep side s since home st (st.dispatch slow) := by
  unfold Lanes.dispatch
  cases hlane : st.lane slow with
  | nil => exact same h rfl (fun _ => rfl) rfl rfl
  | cons p rest =>
    obtain ⟨idx, task⟩ := p
    have hdest := first_of_lane h hlane
    have hshard : ∀ i, picks side s since ((Function.update st.shard idx
          { st.shard idx with queue := (st.shard idx).queue ++ [task] }) i).origins =
        picks side s since (st.shard i).origins ++
          if i = idx then (pick side s since task.origin).toList else [] :=
      picks_update Shard.origins (origins_queue _ task)
    have hrest : ∀ b, picks side s since ((st.lane b).map fun p => p.2.origin) = [] →
        picks side s since ((Function.update st.lane slow rest b).map fun p => p.2.origin) = [] := by
      intro b hnone
      by_cases hb : b = slow
      · subst hb
        rw [lane_cons hlane] at hnone
        rw [Function.update_self]
        exact (List.append_eq_nil_iff.mp hnone).2
      · rwa [Function.update_of_ne hb]
    refine ⟨⟨h.buffers, fun i hi => ?_, fun b hb => ?_, fun p hp hpick => ?_, h.routed,
      fun hs => ?_⟩, ?_⟩
    · show picks side s since ((Function.update st.shard idx _) i).origins = []
      rw [hshard, h.shards i hi, nil_append]
      exact not_entering (fun hpick => congrArg Prod.fst (hdest hpick).1) hi
    · exact hrest b (h.lanes b hb)
    · have hp : p ∈ Function.update st.lane slow rest home.2 := hp
      by_cases hb : home.2 = slow
      · rw [hb, Function.update_self] at hp
        exact h.laneHome p (by rw [hb, hlane]; exact mem_cons_of_mem _ hp) hpick
      · rw [Function.update_of_ne hb] at hp
        exact h.laneHome p hp hpick
    · have hnone : pick side s since task.origin = none := by
        by_contra hpick
        exact (hdest hpick).2 hs
      obtain ⟨hshards, hlanes⟩ := h.unnamed hs
      constructor
      · show picks side s since ((Function.update st.shard idx _) home.1).origins = []
        rw [hshard, hshards, hnone]
        split <;> rfl
      · exact hrest home.2 hlanes
    · show Conveys _ (st.port.line side s since ++
        (picks side s since ((Function.update st.shard idx _) home.1).origins ++
          (picks side s since (((Function.update st.lane slow rest) home.2).map _) ++ _)))
      rw [Lanes.front, hshard, append_assoc _ (ite _ _ _)]
      refine (Conveys.refl _).append ((Conveys.refl _).append ?_)
      rw [← append_assoc]
      refine Conveys.append ?_ (Conveys.refl _)
      -- the number leaves the lane for the shard, or there is none
      cases hpick : pick side s since task.origin with
      | none =>
        have hsame : picks side s since (((Function.update st.lane slow rest) home.2).map
            fun p => p.2.origin) = picks side s since ((st.lane home.2).map fun p => p.2.origin) := by
          by_cases hb : home.2 = slow
          · rw [hb, Function.update_self, lane_cons hlane, hpick]
            rfl
          · rw [Function.update_of_ne hb]
        rw [hsame]
        split <;> exact Conveys.refl _
      | some n =>
        obtain ⟨rfl, -⟩ := hdest (by rw [hpick]; exact some_ne_none n)
        rw [if_pos rfl, Function.update_self, lane_cons hlane, hpick]
        exact Conveys.refl _

theorem shardPull (h : Housed side s since home st) :
    FrontStep side s since home st (st.shardPull idx) := by
  unfold Lanes.shardPull
  split
  · next hrunning hbatch =>
    refine same h rfl (fun i => ?_) rfl rfl
    show ((Function.update st.shard idx _) i).origins = _
    by_cases hi : i = idx
    · rw [hi, Function.update_self, Shard.origins, Shard.origins, hrunning, hbatch]
      show ([] ++ _ ++ _ : List ShardTask).map _ = ([] ++ [] ++ _ : List ShardTask).map _
      rw [nil_append, take_append_drop]
      rfl
    · rw [Function.update_of_ne hi]
  · exact same h rfl (fun _ => rfl) rfl rfl

end FrontStep

/-- What `handle_message_single` does before it waits: nothing more, wait for a
pipeline, report an EOSE nobody subscribed to, or report another status. -/
inductive Handled (env : LanesEnv) (st : Lanes) (idx : ℕ) (task : ShardTask) (now : ℕ) :
    Lanes → Prop
  | ignored : Handled env st idx task now st
  | waits (call : PipelineCall) : Handled env st idx task now
      (st.setShard idx { st.shard idx with running := some (task, call) })
  | eose (url : String) : Handled env st idx task now (st.finishEose env task url [] now)
  | status (url status reason : String) :
      Handled env st idx task now (st.acceptedStatus env task url status reason now)

theorem handled_await (env : LanesEnv) (st : Lanes) (idx : ℕ) (task : ShardTask) (now : ℕ)
    (call : PipelineCall) : Handled env st idx task now (st.await idx task call) := by
  unfold Lanes.await
  split
  · exact .ignored
  · split
    · exact .waits call
    · exact .ignored

theorem handled_handleMessageSingle (env : LanesEnv) (st : Lanes) (idx : ℕ) (task : ShardTask)
    (now : ℕ) : Handled env st idx task now (st.handleMessageSingle env idx task now) := by
  unfold Lanes.handleMessageSingle
  cases task.body with
  | networkRaw eventJson =>
    dsimp only
    split
    · exact .ignored
    · exact handled_await env st idx task now _
  | message message =>
    cases message with
    | none => exact .ignored
    | some message =>
      dsimp only
      split
      · split
        · exact .ignored
        · split
          · split
            · exact .waits _
            · exact .eose _
          · exact .status _ _ _
      · split
        · exact handled_await env st idx task now _
        · exact .ignored

/-! The branches that send, with what they leave alone. -/

theorem finishEose_port (env : LanesEnv) (st : Lanes) (task : ShardTask) (url : String)
    (outputs : List Bytes) (now : ℕ) : (st.finishEose env task url outputs now).port =
      ((st.port.sendOutputs env task.sid
        (outputs.map fun o => ⟨task.origin, .output o⟩) now).sendOutputToMain env task.sid
        ⟨task.origin, .worker (connectionStatus url "EOSE" "")⟩ now).flushMain task.sid := by
  unfold Lanes.finishEose
  split
  · rfl
  · split <;> rfl

theorem finishEose_frame (env : LanesEnv) (st : Lanes) (task : ShardTask) (url : String)
    (outputs : List Bytes) (now : ℕ) :
    (st.finishEose env task url outputs now).shard = st.shard ∧
      (st.finishEose env task url outputs now).lane = st.lane ∧
      (st.finishEose env task url outputs now).ingress = st.ingress := by
  unfold Lanes.finishEose
  split
  · exact ⟨rfl, rfl, rfl⟩
  · split <;> exact ⟨rfl, rfl, rfl⟩

theorem pick_task_of_ne {task : ShardTask} (h : task.sid ≠ s) :
    pick side s since task.origin = none := pick_of_ne h

theorem feeds_outputs {port : MainPort} (env : LanesEnv)
    (h : ∀ k, k ≠ s →
      (port.batches.items k).filterMap (fun item => pick side s since item.origin) = [])
    (task : ShardTask) (outputs : List Bytes) (now : ℕ) :
    Feeds side s since task.origin port (port.sendOutputs env task.sid
      (outputs.map fun o => ⟨task.origin, .output o⟩) now) := by
  refine MainPort.feeds_sendOutputs env h task.sid _ (fun item hitem => ?_) pick_task_of_ne now
  obtain ⟨o, -, rfl⟩ := List.mem_map.mp hitem
  rfl

theorem feeds_last {port : MainPort} (env : LanesEnv)
    (h : ∀ k, k ≠ s →
      (port.batches.items k).filterMap (fun item => pick side s since item.origin) = [])
    (o : Origin) (subId : String) (ho : subId ≠ s → pick side s since o = none)
    (message : MainMessage) (now : ℕ) :
    Feeds side s since o port
      ((port.sendOutputToMain env subId ⟨o, message⟩ now).flushMain subId) := by
  have hsend := MainPort.feeds_sendOutputToMain env h subId ⟨o, message⟩ ho now
  exact hsend.trans (MainPort.feeds_flushMain hsend.buffers subId)

theorem feeds_outputs_last {port : MainPort} (env : LanesEnv)
    (h : ∀ k, k ≠ s →
      (port.batches.items k).filterMap (fun item => pick side s since item.origin) = [])
    (task : ShardTask) (outputs : List Bytes) (message : MainMessage) (now : ℕ) :
    Feeds side s since task.origin port (((port.sendOutputs env task.sid
      (outputs.map fun o => ⟨task.origin, .output o⟩) now).sendOutputToMain env task.sid
      ⟨task.origin, message⟩ now).flushMain task.sid) := by
  have houtputs := feeds_outputs env h task outputs now
  exact houtputs.trans (feeds_last env houtputs.buffers task.origin task.sid pick_task_of_ne
    message now)

namespace FrontStep

variable {st : Lanes}

theorem shardStart {idx now : ℕ} (h : Housed side s since home st)
    (hopen : st.front side s since home ≠ [] → OpenAt env s home st) :
    FrontStep side s since home st (st.shardStart env idx now) := by
  unfold Lanes.shardStart
  split
  · next task rest hrunning hbatch =>
    -- the task at the head of the shard, and the shard without it
    have hfirst : (st.shard idx).origins =
        task.origin :: Shard.origins { st.shard idx with batch := rest } := by
      simp only [Shard.origins, hrunning, hbatch, toList_none, map_nil, nil_append,
        cons_append, map_cons]
    have hshards : (st.setShard idx { st.shard idx with batch := rest }).shard =
        Function.update st.shard idx { st.shard idx with batch := rest } := rfl
    generalize hst : st.setShard idx { st.shard idx with batch := rest } = st₁ at hshards
    have hport : st₁.port = st.port := by rw [← hst]; rfl
    have hlane : st₁.lane = st.lane := by rw [← hst]; rfl
    have hingress : st₁.ingress = st.ingress := by rw [← hst]; rfl
    have hsubs : st₁.subs = st.subs := by rw [← hst]; rfl
    have hself : st₁.shard idx = { st.shard idx with batch := rest } := by
      rw [hshards, Function.update_self]
    generalize hres : st₁.handleMessageSingle env idx task now = st₂
    have hhandled := handled_handleMessageSingle env st₁ idx task now
    rw [hres] at hhandled
    cases hhandled with
    | ignored => exact leave h hfirst (by rw [hport]; exact Feeds.refl h.buffers) hshards hlane hingress
    | waits call =>
      refine same h hport (fun i => ?_) hlane hingress
      show ((Function.update st₁.shard idx _) i).origins = _
      by_cases hi : i = idx
      · rw [hi, Function.update_self, hfirst, hself]
        simp only [Shard.origins, hrunning, toList_some, toList_none, map_cons,
          map_nil, nil_append, cons_append]
      · rw [Function.update_of_ne hi, hshards, Function.update_of_ne hi]
    | eose url =>
      obtain ⟨hs, hl, hi⟩ := finishEose_frame env st₁ task url [] now
      refine leave h hfirst ?_ (hs.trans hshards) (hl.trans hlane) (hi.trans hingress)
      rw [finishEose_port, hport]
      exact feeds_outputs_last env h.buffers task [] _ now
    | status url status reason =>
      refine leave h hfirst ?_ hshards hlane hingress
      show Feeds side s since task.origin st.port ((st₁.port.sendOutputToMain env _ _ now).flushMain _)
      rw [hport]
      refine feeds_last env h.buffers task.origin _ (fun hkey => ?_) _ now
      by_contra hpick
      -- a status of the subscription goes out under its own id
      have hsid : task.sid = s := subId_of_pick hpick
      refine hkey ?_
      have hidx : idx = home.1 := by
        by_contra hne
        have hnone := h.shards idx hne
        rw [hfirst, picks_cons] at hnone
        exact hpick (Option.toList_eq_nil_iff.mp (List.append_eq_nil_iff.mp hnone).1)
      obtain ⟨-, sub, hsub, hpublish⟩ := hopen (by
        intro hnil
        have hnil := (List.append_eq_nil_iff.mp (List.append_eq_nil_iff.mp hnil).2).1
        rw [← hidx, hfirst, picks_cons] at hnil
        exact hpick (Option.toList_eq_nil_iff.mp (List.append_eq_nil_iff.mp hnil).1))
      rw [hsubs, hsid, hsub, bind_some, hpublish]
      rfl
  · exact same h rfl (fun _ => rfl) rfl rfl

theorem shardFinish {idx now : ℕ} {outputs : List Bytes} (h : Housed side s since home st) :
    FrontStep side s since home st (st.shardFinish env idx outputs now) := by
  unfold Lanes.shardFinish
  split
  · exact same h rfl (fun _ => rfl) rfl rfl
  · next task call hrunning =>
    have hfirst : (st.shard idx).origins =
        task.origin :: Shard.origins { st.shard idx with running := none } := by
      simp only [Shard.origins, hrunning, toList_some, toList_none, map_nil,
        nil_append, cons_append, map_cons]
    cases call with
    | process => exact leave h hfirst (feeds_outputs env h.buffers task _ now) rfl rfl rfl
    | processBytes => exact leave h hfirst (feeds_outputs env h.buffers task _ now) rfl rfl rfl
    | processCachedBatch => exact leave h hfirst (feeds_outputs env h.buffers task _ now) rfl rfl rfl
    | flushEose url =>
      obtain ⟨hs, hl, hi⟩ := finishEose_frame env
        (st.setShard idx { st.shard idx with running := none }) task url outputs now
      refine leave h hfirst ?_ hs hl hi
      dsimp only
      rw [finishEose_port]
      exact feeds_outputs_last env h.buffers task outputs _ now
    | flushEoce =>
      exact leave h hfirst (feeds_outputs_last env h.buffers task outputs _ now) rfl rfl rfl

theorem direct {port : MainPort} {item : IngressItem} {rest : List IngressItem}
    (h : Housed side s since home st) (hfirst : st.ingress = item :: rest)
    (hsid : item.task.sid = "") (hfeeds : Feeds side s since item.task.origin st.port port) :
    FrontStep side s since home st { st with ingress := rest, port := port } := by
  refine ⟨⟨hfeeds.buffers, h.shards, h.lanes, h.laneHome, fun i b task hmem => ?_, h.unnamed⟩, ?_⟩
  · exact h.routed i b task (by rw [hfirst]; exact mem_cons_of_mem _ hmem)
  · rw [Lanes.front, hfirst, map_cons, picks_cons]
    show Conveys _ (port.line side s since ++ (picks side s since (st.shard home.1).origins ++
      (picks side s since ((st.lane home.2).map fun p => p.2.origin) ++ _)))
    cases hpick : pick side s since item.task.origin with
    | none => exact (hfeeds.of_eq hpick).append (Conveys.refl _)
    | some n =>
      have hs : s = "" := by
        rw [← hsid]
        exact (subId_of_pick (by rw [hpick]; exact some_ne_none n)).symm
      obtain ⟨hshards, hlanes⟩ := h.unnamed hs
      have hconveys := hfeeds.conveys
      rw [hpick] at hconveys
      rw [hshards, hlanes, nil_append, nil_append, nil_append, nil_append,
        ← append_assoc]
      exact hconveys.append (Conveys.refl _)

theorem ingressNext {now : ℕ} (h : Housed side s since home st)
    (hopen : st.front side s since home ≠ [] → OpenAt env s home st) :
    FrontStep side s since home st (st.ingressNext env now) := by
  -- where a number at the head of the ingress task goes
  have hhead : ∀ item rest, st.ingress = item :: rest →
      pick side s since item.task.origin ≠ none →
        laneOf env.hash st.subs item.task.sid = home := by
    intro item rest hfirst hpick
    have hsid : item.task.sid = s := subId_of_pick hpick
    rw [hsid]
    refine (hopen fun hnil => ?_).1
    have hnil := (List.append_eq_nil_iff.mp (List.append_eq_nil_iff.mp
      (List.append_eq_nil_iff.mp hnil).2).2).2
    rw [hfirst, map_cons, picks_cons] at hnil
    exact hpick (Option.toList_eq_nil_iff.mp (List.append_eq_nil_iff.mp hnil).1)
  unfold Lanes.ingressNext
  split
  · exact same h rfl (fun _ => rfl) rfl rfl
  · next shard slow task rest hfirst =>
    exact enqueue h hfirst fun hpick =>
      h.routed shard slow task (by rw [hfirst]; exact mem_cons_self) hpick
  · next task rest hfirst =>
    dsimp only
    split
    · next hsid =>
      split
      · next message _ =>
        refine direct h hfirst hsid ?_
        exact feeds_last env h.buffers task.origin "" (fun hs => pick_of_ne (by
          show task.sid ≠ s
          rwa [hsid])) _ now
      · exact direct h hfirst hsid (Feeds.refl h.buffers)
    · next hsid =>
      refine enqueue h hfirst fun hpick => ⟨hhead _ rest hfirst hpick, fun hs => hsid ?_⟩
      rw [← hs]
      exact subId_of_pick hpick

end FrontStep

theorem conveys_same_origin {o : Origin} {os : List Origin} (h : ∀ x ∈ os, x = o) :
    Conveys (pick side s since o).toList (picks side s since os) := by
  induction os with
  | nil => exact Conveys.of_sublist (nil_sublist _)
  | cons x os ih =>
    have hrest := ih fun y hy => h y (mem_cons_of_mem _ hy)
    rw [picks_cons, h x mem_cons_self]
    cases hpick : pick side s since o with
    | none =>
      rw [hpick] at hrest
      exact hrest
    | some n =>
      rw [hpick] at hrest
      exact Conveys.copy hrest

end Nipworker
