/-
The line of a subscription (`worker/connections_worker.rs`,
`worker/parser_worker.rs`).

For a subscription that stays open, everything that is made from the frames of its
relays, from the writer's buffer to what was sent to main, is read as one line of
numbers, the delivered end first; likewise for the responses of the cache worker.
-/
import Nipworker.Lib.Conveyor
import Nipworker.Worker.ParserLanes

namespace Nipworker

open Conveyor List

/-- Where an event comes from. -/
inductive Side
  | network
  | cache
  deriving DecidableEq

def Side.number : Side → Stamp → Option ℕ
  | .network, .network n => some n
  | .cache, .cache n => some n
  | _, _ => none

def Side.count : Side → Lanes → ℕ
  | .network, st => st.arrivals.length
  | .cache, st => st.responses.length

/-- The number of an origin that belongs to the subscription and to this side,
counted from `since` on. -/
def pick (side : Side) (s : String) (since : ℕ) (o : Origin) : Option ℕ :=
  if o.subId = s then (side.number o.stamp).filter fun n => since ≤ n else none

/-! ### The line -/

def Shard.origins (shard : Shard) : List Origin :=
  (shard.running.toList.map Prod.fst ++ shard.batch ++ shard.queue).map ShardTask.origin

def IngressItem.task : IngressItem → ShardTask
  | .frame task => task
  | .routed _ _ task => task

def ConnPacket.origins : ConnPacket → List Origin
  | .rawBatch subId frames => frames.map fun f => ⟨subId, .network f.number⟩
  | .control number subId _ _ => [⟨subId, .network number⟩]
  | .relayStatus _ _ => [⟨"", .own⟩]

section Line

variable (side : Side) (s : String) (since : ℕ)

def picks (origins : List Origin) : List ℕ := origins.filterMap (pick side s since)

/-- The numbers at the channel to main: what was sent, then what waits. -/
def MainPort.line (port : MainPort) : List ℕ :=
  StampedBatches.picks (fun _ item => pick side s since item.origin) port.sent ++
    (port.batches.items s).filterMap fun item => pick side s since item.origin

def Lanes.front (home : ℕ × Bool) (st : Lanes) : List ℕ :=
  st.port.line side s since ++
    (picks side s since (st.shard home.1).origins ++
      (picks side s since ((st.lane home.2).map fun p => p.2.origin) ++
        picks side s since (st.ingress.map fun item => item.task.origin)))

/-- The numbers on the channels to the parser and in the writer's buffer. -/
def Lanes.back (st : Lanes) : List ℕ :=
  picks side s since (st.fromConnections.flatMap ConnPacket.origins) ++
    ((st.writer.parserBatches.items s).filterMap fun f => pick side s since ⟨s, .network f.number⟩) ++
    picks side s since (st.fromCache.map fun p => ⟨p.2.subId, .cache p.1⟩)

/-- The line of a subscription. -/
def Lanes.trail (home : ℕ × Bool) (st : Lanes) : List ℕ :=
  st.front side s since home ++ st.back side s since

/-- The numbers are nowhere else in the parser, and go nowhere else. -/
structure Housed (home : ℕ × Bool) (st : Lanes) : Prop where
  buffers : ∀ k, k ≠ s →
    (st.port.batches.items k).filterMap (fun item => pick side s since item.origin) = []
  shards : ∀ i, i ≠ home.1 → picks side s since (st.shard i).origins = []
  lanes : ∀ b, b ≠ home.2 → picks side s since ((st.lane b).map fun p => p.2.origin) = []
  laneHome : ∀ p ∈ st.lane home.2, pick side s since p.2.origin ≠ none → p.1 = home.1
  routed : ∀ i b task, IngressItem.routed i b task ∈ st.ingress →
    pick side s since task.origin ≠ none → (i, b) = home ∧ s ≠ ""
  unnamed : s = "" → picks side s since (st.shard home.1).origins = [] ∧
    picks side s since ((st.lane home.2).map fun p => p.2.origin) = []

end Line

/-- The subscription is open, on its shard and its lane. -/
def OpenAt (env : LanesEnv) (s : String) (home : ℕ × Bool) (st : Lanes) : Prop :=
  laneOf env.hash st.subs s = home ∧
    ∃ sub, st.subs.lookup s = some sub ∧ sub.publishId = none

variable {side : Side} {s : String} {since : ℕ} {home : ℕ × Bool} {env : LanesEnv}

theorem subId_of_pick {o : Origin} (h : pick side s since o ≠ none) : o.subId = s := by
  by_contra hne
  exact h (if_neg hne)

theorem pick_of_ne {o : Origin} (h : o.subId ≠ s) : pick side s since o = none := if_neg h

theorem pick_own : pick side s since ⟨s, .own⟩ = none := by
  cases side <;> simp [pick, Side.number]

theorem picks_append (xs ys : List Origin) :
    picks side s since (xs ++ ys) = picks side s since xs ++ picks side s since ys :=
  filterMap_append

theorem picks_cons (o : Origin) (os : List Origin) :
    picks side s since (o :: os) = (pick side s since o).toList ++ picks side s since os := by
  rw [picks, filterMap_cons]
  cases pick side s since o <;> rfl

theorem picks_nil : picks side s since [] = [] := rfl

/-! ### The channel to main -/

/-- What the channel does with things made from one origin: nothing overtakes,
and nothing of the subscription waits under another id. -/
structure Feeds (side : Side) (s : String) (since : ℕ) (o : Origin) (port port' : MainPort) :
    Prop where
  conveys : Conveys (port.line side s since ++ (pick side s since o).toList)
    (port'.line side s since)
  buffers : ∀ k, k ≠ s →
    (port'.batches.items k).filterMap (fun item => pick side s since item.origin) = []

namespace Feeds

variable {o : Origin} {port port' port'' : MainPort}

theorem refl (h : ∀ k, k ≠ s →
    (port.batches.items k).filterMap (fun item => pick side s since item.origin) = []) :
    Feeds side s since o port port :=
  ⟨Conveys.of_sublist (sublist_append_left _ _), h⟩

theorem trans (h : Feeds side s since o port port') (h' : Feeds side s since o port' port'') :
    Feeds side s since o port port'' := by
  refine ⟨?_, h'.buffers⟩
  -- the number is used twice, once by each part
  have htwice : Conveys (port.line side s since ++ (pick side s since o).toList)
      ((port.line side s since ++ (pick side s since o).toList) ++
        (pick side s since o).toList) := by
    rw [append_assoc]
    refine (Conveys.refl _).append ?_
    cases pick side s since o with
    | none => exact Conveys.nil
    | some n => exact Conveys.replicate 2 n
  exact (htwice.trans (h.conveys.append (Conveys.refl _))).trans h'.conveys

theorem of_eq {n : Origin} (h : Feeds side s since n port port') (hn : pick side s since n = none) :
    Conveys (port.line side s since) (port'.line side s since) := by
  have hconveys := h.conveys
  rw [hn] at hconveys
  simpa using hconveys

end Feeds

namespace MainPort

variable {port : MainPort}

theorem line_sent (payload : Option (List MainItem)) (subId : String) (batches : StampedBatches MainItem) :
    line side s since
        { batches := batches, sent := port.sent ++ payload.toList.map fun items => (subId, items) } =
      StampedBatches.picks (fun _ item => pick side s since item.origin) port.sent ++
        ((payload.getD []).filterMap (fun item => pick side s since item.origin) ++
          (batches.items s).filterMap fun item => pick side s since item.origin) := by
  rw [line, StampedBatches.picks_append, StampedBatches.picks_ofPayload, append_assoc]

theorem feeds_sendOutputToMain (env : LanesEnv)
    (h : ∀ k, k ≠ s →
      (port.batches.items k).filterMap (fun item => pick side s since item.origin) = [])
    (subId : String) (item : MainItem)
    (hitem : subId ≠ s → pick side s since item.origin = none) (now : ℕ) :
    Feeds side s since item.origin port (port.sendOutputToMain env subId item now) := by
  have hsub := (StampedBatches.addMessage_sublist (MainItem.enc env) port.batches subId item
    now).filterMap fun item => pick side s since item.origin
  rw [filterMap_append, filterMap_append] at hsub
  have hone : [item].filterMap (fun item => pick side s since item.origin)
      = (pick side s since item.origin).toList := by
    rw [filterMap_cons]
    cases pick side s since item.origin <;> rfl
  rw [hone] at hsub
  by_cases hs : subId = s
  · subst hs
    refine ⟨?_, fun k hk => ?_⟩
    · rw [sendOutputToMain, line_sent, line, append_assoc]
      exact (Conveys.refl _).append (Conveys.of_sublist hsub)
    · rw [← h k hk]
      exact congrArg _ (StampedBatches.items_addMessage_ne _ port.batches hk item now)
  · rw [h subId hs, hitem hs] at hsub
    obtain ⟨hsent, hkept⟩ := List.append_eq_nil_iff.mp (List.sublist_nil.mp hsub)
    refine ⟨?_, fun k hk => ?_⟩
    · rw [sendOutputToMain, line_sent, hsent,
        StampedBatches.items_addMessage_ne _ port.batches (Ne.symm hs) item now]
      exact Conveys.of_sublist (sublist_append_left _ _)
    · by_cases hks : k = subId
      · subst hks
        exact hkept
      · rw [← h k hk]
        exact congrArg _ (StampedBatches.items_addMessage_ne _ port.batches hks item now)

theorem feeds_sendOutputs (env : LanesEnv) {o : Origin}
    (h : ∀ k, k ≠ s →
      (port.batches.items k).filterMap (fun item => pick side s since item.origin) = [])
    (subId : String) (items : List MainItem) (hitems : ∀ item ∈ items, item.origin = o)
    (ho : subId ≠ s → pick side s since o = none) (now : ℕ) :
    Feeds side s since o port (port.sendOutputs env subId items now) := by
  induction items generalizing port with
  | nil => exact Feeds.refl h
  | cons item items ih =>
    have horigin : item.origin = o := hitems item mem_cons_self
    have hone := feeds_sendOutputToMain env h subId item (by rwa [horigin]) now
    rw [horigin] at hone
    exact hone.trans (ih hone.buffers fun x hx => hitems x (mem_cons_of_mem _ hx))

theorem feeds_flushMain {o : Origin}
    (h : ∀ k, k ≠ s →
      (port.batches.items k).filterMap (fun item => pick side s since item.origin) = [])
    (subId : String) : Feeds side s since o port (port.flushMain subId) := by
  have hflush := congrArg (List.filterMap fun item => pick side s since item.origin)
    (StampedBatches.flushSub_items port.batches subId)
  rw [filterMap_append] at hflush
  by_cases hs : subId = s
  · subst hs
    refine ⟨?_, fun k hk => ?_⟩
    · rw [flushMain, line_sent, hflush]
      exact Conveys.of_sublist (sublist_append_left _ _)
    · rw [← h k hk]
      exact congrArg _ (StampedBatches.items_flushSub_ne port.batches hk)
  · rw [h subId hs] at hflush
    obtain ⟨hsent, hkept⟩ := List.append_eq_nil_iff.mp hflush
    refine ⟨?_, fun k hk => ?_⟩
    · rw [flushMain, line_sent, hsent,
        StampedBatches.items_flushSub_ne port.batches (Ne.symm hs)]
      exact Conveys.of_sublist (sublist_append_left _ _)
    · by_cases hks : k = subId
      · subst hks
        exact hkept
      · rw [← h k hk]
        exact congrArg _ (StampedBatches.items_flushSub_ne port.batches hks)

theorem feeds_flushTimedOutBatches {o : Origin}
    (h : ∀ k, k ≠ s →
      (port.batches.items k).filterMap (fun item => pick side s since item.origin) = [])
    (iter : IterOrder String) (now : ℕ) :
    Feeds side s since o port (port.flushTimedOutBatches iter now) := by
  obtain ⟨hline, hothers⟩ := StampedBatches.drainTimedOut_picks
    (fun _ item => pick side s since item.origin) port.batches h iter now
  refine ⟨?_, hothers⟩
  have hsame : (port.flushTimedOutBatches iter now).line side s since = port.line side s since := by
    show StampedBatches.picks _ (port.sent ++ (port.batches.drainTimedOut iter now).2) ++
      ((port.batches.drainTimedOut iter now).1.items s).filterMap _ = _
    rw [StampedBatches.picks_append, append_assoc, hline]
    rfl
  rw [hsame]
  exact Conveys.of_sublist (sublist_append_left _ _)

end MainPort

end Nipworker
