/-
No EOSE overtakes an event (`worker/connections_worker.rs`,
`worker/parser_worker.rs`).

The numbers of the frames stand in order along the line of an open subscription,
whatever the tasks do and in which order: a frame joins it at the far end, and
every step hands things on without letting one overtake another.
-/
import Nipworker.Worker.OrderTrail

namespace Nipworker

open List Option

variable {side : Side} {s : String} {since : ℕ} {home : ℕ × Bool} {env : LanesEnv}

/-! ### The subscription stays open -/

def routing (subs : Map String ParserSub) (sid : String) : Option (Option ℕ × Option String) :=
  (subs.lookup sid).map fun sub => (sub.forcedShard, sub.publishId)

variable {st : Lanes}

theorem openAt_iff : OpenAt env s home st ↔
    laneOf env.hash st.subs s = home ∧ ∃ forced, routing st.subs s = some (forced, none) := by
  refine and_congr Iff.rfl ⟨?_, ?_⟩
  · rintro ⟨sub, hsub, hpublish⟩
    exact ⟨sub.forcedShard, by rw [routing, hsub, map_some, hpublish]⟩
  · rintro ⟨forced, hrouting⟩
    obtain ⟨sub, hsub, heq⟩ := Option.map_eq_some_iff.mp hrouting
    exact ⟨sub, hsub, congrArg Prod.snd heq⟩

theorem laneOf_congr {subs subs' : Map String ParserSub} (h : routing subs' s = routing subs s) :
    laneOf env.hash subs' s = laneOf env.hash subs s := by
  have hforced : (subs'.lookup s).bind ParserSub.forcedShard =
      (subs.lookup s).bind ParserSub.forcedShard := by
    have hfirst := congrArg (fun r => r.bind Prod.fst) h
    simpa only [routing, bind_map, Function.comp_def] using hfirst
  rw [laneOf, laneOf, hforced]

theorem OpenAt.congr {st' : Lanes} (h : OpenAt env s home st)
    (hsame : routing st'.subs s = routing st.subs s) : OpenAt env s home st' := by
  rw [openAt_iff] at h ⊢
  rw [laneOf_congr hsame, hsame]
  exact h

def LanesAct.KeepsOpen (s : String) : LanesAct → Prop
  | .closeSubscription subId => subId ≠ s
  | .publishEvent _ eventId => eventId ≠ s
  | _ => True

theorem count_step (side : Side) (env : LanesEnv) (st : Lanes) (act : LanesAct) :
    side.count st ≤ side.count (st.step env act) := by
  have hsame : ∀ {st' : Lanes}, SameUpstream st st' → side.count st ≤ side.count st' := by
    intro st' h
    cases side with
    | network => exact (congrArg List.length h.arrivals).ge
    | cache => exact (congrArg List.length h.responses).ge
  cases act with
  | frame url subId msg now =>
    cases side with
    | network =>
      show st.arrivals.length ≤ (st.arrivals ++ [_]).length
      rw [length_append]
      omega
    | cache => exact le_refl st.responses.length
  | cacheResponse response =>
    cases side with
    | network => exact le_refl st.arrivals.length
    | cache =>
      show st.responses.length ≤ (st.responses ++ [_]).length
      rw [length_append]
      omega
  | receiveConnections =>
    show side.count st ≤ side.count st.receiveConnections
    unfold Lanes.receiveConnections
    split <;> cases side <;> exact le_refl _
  | receiveCache =>
    show side.count st ≤ side.count (st.receiveCache env)
    unfold Lanes.receiveCache
    split
    · split <;> cases side <;> exact le_refl _
    · exact le_refl _
  | ingressNext now => exact hsame (SameUpstream.ingressNext now)
  | dispatch slow => exact hsame (SameUpstream.dispatch slow)
  | shardPull idx => exact hsame (SameUpstream.shardPull idx)
  | shardStart idx now => exact hsame (SameUpstream.shardStart idx now)
  | shardFinish idx outputs now => exact hsame (SameUpstream.shardFinish idx outputs now)
  | openSubscription subId closeOnEose isSlow ok =>
    exact hsame (SameUpstream.openSubscription subId closeOnEose isSlow ok)
  | _ => cases side <;> exact le_refl _

theorem enters_count (env : LanesEnv) {act : LanesAct} {n : ℕ}
    (h : n ∈ picks side s since (act.enters st)) :
    n = side.count st ∧ since ≤ n ∧ side.count (st.step env act) = side.count st + 1 := by
  obtain ⟨o, ho, hpick⟩ := List.mem_filterMap.mp h
  have hnumber : side.number o.stamp = some n ∧ since ≤ n := by
    unfold pick at hpick
    split at hpick
    · obtain ⟨hn, hle⟩ := Option.filter_eq_some_iff.mp hpick
      exact ⟨hn, of_decide_eq_true hle⟩
    · cases hpick
  obtain ⟨hnumber, hle⟩ := hnumber
  cases act with
  | frame url subId msg now =>
    obtain rfl := List.mem_singleton.mp ho
    cases side with
    | network =>
      cases hnumber
      exact ⟨rfl, hle, length_append⟩
    | cache => cases hnumber
  | cacheResponse response =>
    obtain rfl := List.mem_singleton.mp ho
    cases side with
    | network => cases hnumber
    | cache =>
      cases hnumber
      exact ⟨rfl, hle, length_append⟩
  | _ => cases ho

/-- The numbers stand in order along the line, all of them already given. -/
structure InOrder (side : Side) (s : String) (since : ℕ) (home : ℕ × Bool) (st : Lanes) :
    Prop where
  housed : Housed side s since home st
  sorted : (st.trail side s since home).Pairwise (· ≤ ·)
  given : ∀ n ∈ st.trail side s since home, n < side.count st

theorem InOrder.step (h : InOrder side s since home st)
    (hopen : st.trail side s since home ≠ [] → OpenAt env s home st) (act : LanesAct) :
    InOrder side s since home (st.step env act) := by
  have hstep := trailStep h.housed hopen act
  have hsorted : (st.trail side s since home ++ picks side s since (act.enters st)).Pairwise
      (· ≤ ·) := by
    refine List.pairwise_append.mpr ⟨h.sorted, ?_, fun a ha b hb => ?_⟩
    · refine pairwise_of_forall_mem_list fun a ha b hb => ?_
      exact ((enters_count env ha).1.trans (enters_count env hb).1.symm).le
    · rw [(enters_count env hb).1]
      exact (h.given a ha).le
  refine ⟨hstep.housed, hstep.conveys.pairwise le_refl hsorted, fun n hn => ?_⟩
  rcases List.mem_append.mp (hstep.conveys.subset hn) with hn | hn
  · exact lt_of_lt_of_le (h.given n hn) (count_step side env st act)
  · obtain ⟨rfl, -, hcount⟩ := enters_count env hn
    rw [hcount]
    exact Nat.lt_succ_self _

def Lanes.delivered (st : Lanes) : List MainItem := st.port.sent.flatMap Prod.snd

theorem picks_delivered :
    (st.delivered.map MainItem.origin).filterMap (pick side s since) =
      StampedBatches.picks (fun _ item => pick side s since item.origin) st.port.sent := by
  rw [Lanes.delivered, filterMap_map, StampedBatches.picks]
  generalize st.port.sent = sent
  induction sent with
  | nil => rfl
  | cons p rest ih =>
    rw [flatMap_cons, flatMap_cons, filterMap_append, ih]
    rfl

theorem InOrder.delivered (h : InOrder side s since home st)
    {earlier later : List MainItem} {first item : MainItem}
    (hsplit : st.delivered = earlier ++ first :: later) (hitem : item ∈ later) {m n : ℕ}
    (hfirst : pick side s since first.origin = some m)
    (hlater : pick side s since item.origin = some n) : m ≤ n := by
  have hsorted : ((st.delivered.map MainItem.origin).filterMap (pick side s since)).Pairwise
      (· ≤ ·) := by
    rw [picks_delivered]
    exact (List.pairwise_append.mp (List.pairwise_append.mp (List.pairwise_append.mp
      h.sorted).1).1).1
  rw [hsplit, map_append, filterMap_append, map_cons, filterMap_cons,
    hfirst] at hsorted
  refine (List.pairwise_cons.mp (List.pairwise_append.mp hsorted).2.1).1 n ?_
  exact List.mem_filterMap.mpr ⟨item.origin, mem_map_of_mem hitem, hlater⟩

end Nipworker
