/-
What the mesh TTL index remembers (`MeshTtlIndex` in `worker/cache_worker.rs`).

An observed event is live until its observation is older than the ttl, the pinned event
is live as long as it is pinned, and pinning an event forgets its observations.  The
index holds this in a map and a queue of expiries, and the queue may hold entries that
the map has since replaced or dropped.
-/
import Nipworker.Lib.History
import Nipworker.Worker.CacheRequests

namespace Nipworker

open List

namespace MeshTtlIndex

/-! ### The operations -/

/-- `MeshTtlIndex::new`; the ttl never changes, so that it is an argument of the operation
that reads it. -/
def new : MeshTtlIndex := { live := ∅, expiryQueue := [], pinnedEventId := none }

def observe (ttl : ℕ) (index : MeshTtlIndex) (eventId : String) (now : ℕ) : MeshTtlIndex :=
  { index with
    live := index.live.insert eventId (now + ttl)
    expiryQueue := index.expiryQueue ++ [(now + ttl, eventId)] }

def pin (index : MeshTtlIndex) (eventId : String) : MeshTtlIndex :=
  { index with
    live := index.live.erase eventId
    pinnedEventId := some eventId }

def clearPin (index : MeshTtlIndex) : MeshTtlIndex := { index with pinnedEventId := none }

inductive Op
  | observe (eventId : String) (now : ℕ)
  | pin (eventId : String)
  | clearPin
  | isLive (eventId : String) (now : ℕ)
  | prune (now : ℕ)
deriving DecidableEq

def Op.time : Op → Option ℕ
  | .observe _ now => some now
  | .pin _ => none
  | .clearPin => none
  | .isLive _ now => some now
  | .prune now => some now

def Op.looks : Op → Bool
  | .isLive _ _ => true
  | .prune _ => true
  | _ => false

/-- The operations of the index, in the source's words. -/
def step (ttl : ℕ) (index : MeshTtlIndex) : Op → MeshTtlIndex
  | .observe eventId now => observe ttl index eventId now
  | .pin eventId => index.pin eventId
  | .clearPin => index.clearPin
  | .isLive eventId now => (index.isLive eventId now).1
  | .prune now => index.prune now

def run (ttl : ℕ) (ops : List Op) : MeshTtlIndex := Run.exec (step ttl) new ops

theorem run_concat (ttl : ℕ) (ops : List Op) (op : Op) :
    run ttl (ops ++ [op]) = step ttl (run ttl ops) op :=
  Run.exec_append new ops [op]

/-- The clock does not go back during the calls, and is not before them at `now`. -/
def Timely (ops : List Op) (now : ℕ) : Prop := (ops.filterMap Op.time ++ [now]).Pairwise (· ≤ ·)

variable {ops : List Op} {now ttl : ℕ} {eventId : String} {index : MeshTtlIndex}
    {live : Map String ℕ} {queue : List (ℕ × String)}

theorem timely_iff :
    Timely ops now ↔
      (ops.filterMap Op.time).Pairwise (· ≤ ·) ∧ ∀ t ∈ ops.filterMap Op.time, t ≤ now := by
  rw [Timely, pairwise_append]
  simp

theorem timely_concat_none {op : Op} (hop : op.time = none) :
    Timely (ops ++ [op]) now ↔ Timely ops now := by
  rw [Timely, Timely, filterMap_append, filterMap_cons_none hop, filterMap_nil,
    append_nil]

theorem timely_concat {op : Op} {t : ℕ} (hop : op.time = some t) :
    Timely (ops ++ [op]) now ↔ Timely ops t ∧ t ≤ now := by
  rw [timely_iff, filterMap_append, filterMap_cons_some hop, filterMap_nil]
  constructor
  · rintro ⟨hsorted, hnow⟩
    exact ⟨hsorted, hnow t (by simp)⟩
  · rintro ⟨hsorted, ht⟩
    refine ⟨hsorted, fun t' ht' => ?_⟩
    rcases List.mem_append.mp ht' with hold | hnew
    · exact ((timely_iff.mp hsorted).2 t' hold).trans ht
    · rw [List.mem_singleton.mp hnew]
      exact ht

/-! ### What the index should say -/

/-- The event was pinned, and no event was pinned nor the pin cleared since. -/
def Pinned (ops : List Op) (eventId : String) : Prop :=
  History.Since (fun op => op ≠ .clearPin ∧ ∀ other, op ≠ .pin other) (.pin eventId) ops

/-- The event was observed at `t`, and it was neither observed nor pinned since. -/
def LastObserved (ops : List Op) (eventId : String) (t : ℕ) : Prop :=
  History.Since (fun op => op ≠ .pin eventId ∧ ∀ t', op ≠ .observe eventId t') (.observe eventId t)
    ops

theorem pinned_concat {op : Op} :
    Pinned (ops ++ [op]) eventId ↔ op = .pin eventId ∨
      ((op ≠ .clearPin ∧ ∀ other, op ≠ .pin other) ∧ Pinned ops eventId) :=
  History.since_concat

theorem lastObserved_concat {op : Op} {t : ℕ} :
    LastObserved (ops ++ [op]) eventId t ↔ op = .observe eventId t ∨
      ((op ≠ .pin eventId ∧ ∀ t', op ≠ .observe eventId t') ∧ LastObserved ops eventId t) :=
  History.since_concat

theorem pinned_filter (ops : List Op) (eventId : String) :
    Pinned (ops.filter fun op => !op.looks) eventId ↔ Pinned ops eventId := by
  refine History.since_filter rfl (fun op hop => ?_) ops
  refine ⟨?_, fun other => ?_⟩
  all_goals
    rintro rfl
    contradiction

theorem lastObserved_filter (ops : List Op) (eventId : String) (t : ℕ) :
    LastObserved (ops.filter fun op => !op.looks) eventId t ↔ LastObserved ops eventId t := by
  refine History.since_filter rfl (fun op hop => ?_) ops
  refine ⟨?_, fun other => ?_⟩
  all_goals
    rintro rfl
    contradiction

/-- The last observation of the event still counts at `t`. -/
def Fresh (ttl : ℕ) (ops : List Op) (eventId : String) (t : ℕ) : Prop :=
  ∃ seen, LastObserved ops eventId seen ∧ t < seen + ttl

theorem fresh_observe {observed : String} {seen t : ℕ} :
    Fresh ttl (ops ++ [.observe observed seen]) eventId t ↔
      if eventId = observed then t < seen + ttl else Fresh ttl ops eventId t := by
  simp only [Fresh, lastObserved_concat]
  by_cases hid : eventId = observed
  · subst hid
    simp
  · simp [hid, Ne.symm hid]

theorem fresh_pin {pinned : String} {t : ℕ} :
    Fresh ttl (ops ++ [.pin pinned]) eventId t ↔ eventId ≠ pinned ∧ Fresh ttl ops eventId t := by
  simp only [Fresh, lastObserved_concat]
  by_cases hid : eventId = pinned
  · simp [hid]
  · simp [hid, Ne.symm hid]

/-- **What the index says**, about the pin and about every event from `now` on. -/
structure Remembers (ttl : ℕ) (ops : List Op) (now : ℕ) (index : MeshTtlIndex) : Prop where
  pinned : ∀ eventId, index.pinnedEventId = some eventId ↔ Pinned ops eventId
  live : ∀ eventId t, now ≤ t →
    ((index.live.lookup eventId).any (t < ·) = true ↔ Fresh ttl ops eventId t)

theorem Remembers.mono {later : ℕ}
    (h : Remembers ttl ops now index) (hle : now ≤ later) : Remembers ttl ops later index :=
  ⟨h.pinned, fun eventId t ht => h.live eventId t (hle.trans ht)⟩

theorem Remembers.look {index' : MeshTtlIndex} {op : Op}
    (h : Remembers ttl ops now index) (hop : op.looks = true) (hsame : SameFrom now index' index) :
    Remembers ttl (ops ++ [op]) now index' := by
  have hkeep : ((ops ++ [op]).filter fun op => !op.looks) = ops.filter fun op => !op.looks := by
    rw [filter_append, filter_singleton, hop]
    simp
  refine ⟨fun eventId => ?_, fun eventId t ht => ?_⟩
  · rw [hsame.pinned, h.pinned, ← pinned_filter (ops ++ [op]), hkeep, pinned_filter]
  · rw [hsame.live eventId t ht, h.live eventId t ht]
    simp only [Fresh]
    simp only [← lastObserved_filter (ops ++ [op]), hkeep, lastObserved_filter]

theorem remembers_new (ttl now : ℕ) : Remembers ttl [] now new := by
  refine ⟨fun eventId => ?_, fun eventId t _ => ?_⟩
  · constructor
    · intro h
      contradiction
    · intro h
      exact absurd h History.not_since_nil
  · constructor
    · intro h
      contradiction
    · rintro ⟨seen, hseen, -⟩
      exact absurd hseen History.not_since_nil

theorem Remembers.observe (h : Remembers ttl ops now index) (observed : String) :
    Remembers ttl (ops ++ [.observe observed now]) now (observe ttl index observed now) := by
  refine ⟨fun eventId => ?_, fun eventId t ht => ?_⟩
  · rw [pinned_concat]
    show index.pinnedEventId = some eventId ↔ _
    rw [h.pinned]
    simp
  · rw [fresh_observe]
    show ((AList.insert observed (now + ttl) index.live).lookup eventId).any (t < ·) = true ↔ _
    rw [Map.lookup_insert_ite]
    by_cases hid : eventId = observed
    · rw [if_pos hid, if_pos hid, Option.any_some, decide_eq_true_eq]
    · rw [if_neg hid, if_neg hid]
      exact h.live eventId t ht

theorem Remembers.pin (h : Remembers ttl ops now index) (pinned : String) :
    Remembers ttl (ops ++ [.pin pinned]) now (index.pin pinned) := by
  refine ⟨fun eventId => ?_, fun eventId t ht => ?_⟩
  · rw [pinned_concat]
    show some pinned = some eventId ↔ _
    simp
  · rw [fresh_pin]
    show ((AList.erase pinned index.live).lookup eventId).any (t < ·) = true ↔ _
    rw [Map.lookup_erase_ite]
    by_cases hid : eventId = pinned
    · simp [hid]
    · rw [if_neg hid, h.live eventId t ht, and_iff_right hid]

theorem Remembers.clearPin (h : Remembers ttl ops now index) :
    Remembers ttl (ops ++ [.clearPin]) now index.clearPin := by
  refine ⟨fun eventId => ?_, fun eventId t ht => ?_⟩
  · rw [pinned_concat]
    show none = some eventId ↔ _
    simp
  · show (index.live.lookup eventId).any (t < ·) = true ↔ _
    rw [h.live eventId t ht]
    simp only [Fresh, lastObserved_concat]
    simp

/-- What the index remembers after a run whose clock does not go back. -/
theorem remembers_run (ttl : ℕ) :
    ∀ {now : ℕ}, Timely ops now → Remembers ttl ops now (run ttl ops) := by
  induction ops using List.reverseRecOn with
  | nil => exact fun _ => remembers_new ttl _
  | append_singleton ops op ih =>
    intro now htimely
    rw [run_concat]
    cases op with
    | observe eventId t =>
      obtain ⟨hbefore, hle⟩ := (timely_concat rfl).mp htimely
      exact ((ih hbefore).observe eventId).mono hle
    | pin eventId => exact (ih ((timely_concat_none rfl).mp htimely)).pin eventId
    | clearPin => exact (ih ((timely_concat_none rfl).mp htimely)).clearPin
    | isLive eventId t =>
      obtain ⟨hbefore, hle⟩ := (timely_concat rfl).mp htimely
      exact ((ih hbefore).look rfl (sameFrom_isLive _ eventId t)).mono hle
    | prune t =>
      obtain ⟨hbefore, hle⟩ := (timely_concat rfl).mp htimely
      exact ((ih hbefore).look rfl (sameFrom_prune _ t)).mono hle

/-! ### The queue -/

/-- Nothing in the index has expired by `now`. -/
structure NothingExpired (now : ℕ) (index : MeshTtlIndex) : Prop where
  live : ∀ eventId expiresAt, index.live.lookup eventId = some expiresAt → now < expiresAt
  queue : ∀ entry ∈ index.expiryQueue, now < entry.1

/-- The queue is sorted by expiry, no expiry lies more than the ttl after `now`, and every
expiry of the map is in the queue. -/
structure Ordered (ttl now : ℕ) (live : Map String ℕ) (queue : List (ℕ × String)) : Prop where
  sorted : queue.Pairwise fun entry later => entry.1 ≤ later.1
  soon : ∀ entry ∈ queue, entry.1 ≤ now + ttl
  queued : ∀ eventId expiresAt, live.lookup eventId = some expiresAt → (expiresAt, eventId) ∈ queue

theorem Ordered.mono {later : ℕ}
    (h : Ordered ttl now live queue) (hle : now ≤ later) : Ordered ttl later live queue :=
  ⟨h.sorted, fun entry he => (h.soon entry he).trans (Nat.add_le_add_right hle ttl), h.queued⟩

theorem Ordered.erase (h : Ordered ttl now live queue) (eventId : String) :
    Ordered ttl now (live.erase eventId) queue := by
  refine ⟨h.sorted, h.soon, fun id expiresAt hlive => h.queued id expiresAt ?_⟩
  exact (Map.lookup_erase_eq_some.mp hlive).2

theorem Ordered.pop {expiresAt : ℕ}
    {rest : List (ℕ × String)} (h : Ordered ttl now live ((expiresAt, eventId) :: rest)) :
    Ordered ttl now
      (if live.lookup eventId = some expiresAt then live.erase eventId else live) rest := by
  refine ⟨(List.pairwise_cons.mp h.sorted).2,
    fun entry he => h.soon entry (mem_cons_of_mem _ he), fun id at' hlive => ?_⟩
  have hother : live.lookup id = some at' ∧ (at', id) ≠ (expiresAt, eventId) := by
    by_cases hfront : live.lookup eventId = some expiresAt
    · rw [if_pos hfront, Map.lookup_erase_ite] at hlive
      by_cases hid : id = eventId
      · rw [if_pos hid] at hlive
        contradiction
      · rw [if_neg hid] at hlive
        exact ⟨hlive, fun heq => hid (Prod.mk.inj heq).2⟩
    · rw [if_neg hfront] at hlive
      refine ⟨hlive, fun heq => hfront ?_⟩
      obtain ⟨rfl, rfl⟩ := Prod.mk.inj heq
      exact hlive
  exact (List.mem_cons.mp (h.queued id at' hother.1)).resolve_left hother.2

/-- **The loop of `prune`** keeps the order, and stops where nothing has expired. -/
theorem Ordered.pruneQueue {last : ℕ} (now : ℕ) (queue : List (ℕ × String)) :
    ∀ {live : Map String ℕ}, Ordered ttl last live queue →
      Ordered ttl last (pruneQueue now live queue).1 (pruneQueue now live queue).2 ∧
        ∀ entry ∈ (MeshTtlIndex.pruneQueue now live queue).2, now < entry.1 := by
  induction queue with
  | nil =>
    intro live h
    exact ⟨h, fun entry he => by contradiction⟩
  | cons entry rest ih =>
    obtain ⟨expiresAt, eventId⟩ := entry
    intro live h
    rw [MeshTtlIndex.pruneQueue]
    by_cases hexpired : expiresAt ≤ now
    · rw [if_pos hexpired]
      exact ih h.pop
    · rw [if_neg hexpired]
      refine ⟨h, fun entry he => ?_⟩
      rcases List.mem_cons.mp he with rfl | hrest
      · exact Nat.lt_of_not_le hexpired
      · exact (Nat.lt_of_not_le hexpired).trans_le ((List.pairwise_cons.mp h.sorted).1 entry hrest)

theorem Ordered.observe (h : Ordered ttl now live queue) (eventId : String) :
    Ordered ttl now (AList.insert eventId (now + ttl) live)
      (queue ++ [(now + ttl, eventId)]) := by
  refine ⟨?_, fun entry he => ?_, fun id expiresAt hlive => ?_⟩
  · refine List.pairwise_append.mpr ⟨h.sorted, pairwise_singleton _ _, fun entry he later hl => ?_⟩
    rw [List.mem_singleton.mp hl]
    exact h.soon entry he
  · rcases List.mem_append.mp he with hold | hnew
    · exact h.soon entry hold
    · rw [List.mem_singleton.mp hnew]
  · obtain ⟨rfl, rfl⟩ | ⟨-, hlive⟩ := Map.lookup_insert_eq_some.mp hlive
    · exact mem_append_right _ (mem_singleton_self _)
    · exact mem_append_left _ (h.queued id expiresAt hlive)

theorem nothingExpired_prune {last : ℕ}
    (h : Ordered ttl last index.live index.expiryQueue) (now : ℕ) :
    NothingExpired now (index.prune now) := by
  obtain ⟨hordered, hqueue⟩ := Ordered.pruneQueue now index.expiryQueue h
  exact ⟨fun eventId expiresAt hlive => hqueue _ (hordered.queued eventId expiresAt hlive), hqueue⟩

theorem ordered_run (ttl : ℕ) :
    ∀ {now : ℕ}, Timely ops now →
      Ordered ttl now (run ttl ops).live (run ttl ops).expiryQueue := by
  induction ops using List.reverseRecOn with
  | nil =>
    intro now _
    exact ⟨List.Pairwise.nil, fun entry he => by contradiction, fun id at' h => by contradiction⟩
  | append_singleton ops op ih =>
    intro now htimely
    rw [run_concat]
    cases op with
    | observe eventId t =>
      obtain ⟨hbefore, hle⟩ := (timely_concat rfl).mp htimely
      exact ((ih hbefore).observe eventId).mono hle
    | pin eventId => exact (ih ((timely_concat_none rfl).mp htimely)).erase eventId
    | clearPin => exact ih ((timely_concat_none rfl).mp htimely)
    | isLive eventId t =>
      obtain ⟨hbefore, hle⟩ := (timely_concat rfl).mp htimely
      show Ordered ttl now ((run ttl ops).isLive eventId t).1.live _
      rw [step, isLive]
      -- the pinned event is answered without a prune
      by_cases hpin : (run ttl ops).pinnedEventId = some eventId
      · rw [if_pos hpin]
        exact (ih hbefore).mono hle
      · rw [if_neg hpin]
        exact ((ih hbefore).pruneQueue _ _).1.mono hle
    | prune t =>
      obtain ⟨hbefore, hle⟩ := (timely_concat rfl).mp htimely
      exact ((ih hbefore).pruneQueue _ _).1.mono hle

/-! ### The index as a whole -/

theorem isLive_iff (h : Timely ops now) (eventId : String) :
    ((run ttl ops).isLive eventId now).2 = true ↔
      Pinned ops eventId ∨ Fresh ttl ops eventId now := by
  have hremembers := remembers_run ttl h
  rw [isLive_eq_liveAt, liveAt, decide_eq_true_eq, hremembers.pinned,
    hremembers.live eventId now le_rfl]

/-- **Liveness and clean-up.**  An event is live when it is pinned, or was observed after it
was last pinned and its last such observation is not older than the ttl; prunes and questions
in between do not count.  A prune leaves nothing that has expired, and so does a question
about an event that is not pinned; the pinned event is answered without a prune. -/
theorem isLive_iff_observed (ttl : ℕ) (ops : List Op) (now : ℕ) (h : Timely ops now) :
    (∀ eventId, ((run ttl ops).isLive eventId now).2 = true ↔
      Pinned ops eventId ∨ ∃ seen, LastObserved ops eventId seen ∧ now < seen + ttl) ∧
    (∀ ops', Timely ops' now →
      (ops'.filter fun op => !op.looks) = (ops.filter fun op => !op.looks) →
      ∀ eventId, ((run ttl ops').isLive eventId now).2 = ((run ttl ops).isLive eventId now).2) ∧
    NothingExpired now ((run ttl ops).prune now) ∧
    ∀ eventId,
      (¬ Pinned ops eventId → NothingExpired now ((run ttl ops).isLive eventId now).1) ∧
      (Pinned ops eventId → (run ttl ops).isLive eventId now = (run ttl ops, true)) := by
  have hpruned : NothingExpired now ((run ttl ops).prune now) :=
    nothingExpired_prune (ordered_run ttl h) now
  refine ⟨isLive_iff h, fun ops' h' hsame eventId => ?_, hpruned, fun eventId => ?_⟩
  · rw [Bool.eq_iff_iff, isLive_iff h', isLive_iff h, ← pinned_filter ops', hsame, pinned_filter]
    simp only [Fresh]
    simp only [← lastObserved_filter ops', hsame, lastObserved_filter]
  · have hpin := (remembers_run ttl h).pinned eventId
    refine ⟨fun hnot => ?_, fun hpinned => ?_⟩
    · rw [isLive, if_neg (mt hpin.mp hnot)]
      exact hpruned
    · rw [isLive, if_pos (hpin.mpr hpinned)]

/-- An event expires at the tenth tick, and another one is pinned. -/
def expiredBesidePin : List Op := [.observe "event-1" 0, .pin "profile"]

/-- The question about the event itself finds it expired, and cleans up. -/
theorem isLive_iff_observed_sample :
    Timely expiredBesidePin 20 ∧
      NothingExpired 20 ((run 10 expiredBesidePin).isLive "event-1" 20).1 := by
  have htimely : Timely expiredBesidePin 20 := by
    rw [Timely]
    decide
  refine ⟨htimely, ((isLive_iff_observed 10 expiredBesidePin 20 htimely).2.2.2 "event-1").1 ?_⟩
  intro hpinned
  have hother := ((remembers_run 10 htimely).pinned "event-1").mpr hpinned
  revert hother
  decide

/-- The question about the pinned event leaves the expired one where it is. -/
theorem pinned_question_keeps_expired :
    Timely expiredBesidePin 20 ∧
      ¬ NothingExpired 20 ((run 10 expiredBesidePin).isLive "profile" 20).1 := by
  refine ⟨?_, fun h => ?_⟩
  · rw [Timely]
    decide
  · have hqueue := h.queue (10, "event-1") (by decide)
    omega

end MeshTtlIndex

end Nipworker
