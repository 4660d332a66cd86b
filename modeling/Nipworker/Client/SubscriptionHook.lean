/-
The hook that delivers the messages of a subscription (`useSubscription` in `hooks.ts`).

A microtask reads the buffer in batches and calls the callback for every message; the read
position moves on behind a whole batch.  The callback may write more, release the
subscription or throw.
-/
import Nipworker.Client.MessageBuffer
import Nipworker.Lib.History
import Nipworker.Lib.Run

namespace Nipworker

open ArrayBufferReader (Holds readMessages writePayload newBuffer)

/-- Where `processEvents` is. -/
inductive HookPhase
  | idle
  /-- The callback runs; behind its message the batch goes on, from a position, with some
  messages, and ends at another position. -/
  | inCallback (pos : ℕ) (rest : List Bytes) (newReadPosition : ℕ)
deriving DecidableEq

/-- What is recorded: a call of the callback, with the position of its message, and the call
of `unsubscribe`. -/
inductive HookEntry
  | delivered (pos : ℕ) (message : Bytes)
  | unsubscribed
deriving DecidableEq

/-- The variables of `useSubscription`, with the bytes of the buffer it reads and a record;
`attached` says that its variable `buffer` is not null, `thrown` that a callback threw. -/
structure SubscriptionHook where
  data : Bytes
  attached : Bool
  lastReadPos : ℕ
  running : Bool
  hasUnsubscribed : Bool
  listening : Bool
  scheduled : Bool
  processing : Bool
  detachQueued : Bool
  phase : HookPhase
  thrown : Bool
  log : List HookEntry

namespace SubscriptionHook

/-- The end of `useSubscription`: subscribed, listening, and the first look scheduled. -/
def start (size : ℕ) : SubscriptionHook where
  data := newBuffer size
  attached := true
  lastReadPos := 4
  running := true
  hasUnsubscribed := false
  listening := true
  scheduled := true
  processing := false
  detachQueued := false
  phase := .idle
  thrown := false
  log := []

def scheduleProcess (s : SubscriptionHook) : SubscriptionHook :=
  if ¬ s.running then s else if s.scheduled then s else { s with scheduled := true }

/-- The messages of a batch from a position on: the callback is called for the first. -/
def deliver (s : SubscriptionHook) (pos : ℕ) (message : Bytes) (rest : List Bytes)
    (newReadPosition : ℕ) : SubscriptionHook :=
  { s with
    phase := .inCallback (pos + 4 + message.length) rest newReadPosition
    log := s.log ++ [.delivered pos message] }

/-- `readMessages`, and the test of the loop. -/
def readNext (s : SubscriptionHook) : SubscriptionHook :=
  let result := readMessages s.data s.lastReadPos
  match result.messages with
  | message :: rest =>
    if result.hasNewData ∧ s.attached then
      s.deliver (max s.lastReadPos 4) message rest result.newReadPosition
    else { s with phase := .idle, processing := false }
  | [] => { s with phase := .idle, processing := false }

/-- `processEvents`, up to the first call of the callback. -/
def processEvents (s : SubscriptionHook) : SubscriptionHook :=
  if ¬ s.running ∨ ¬ s.attached then { s with processing := false }
  else if s.processing then s
  else { s with processing := true }.readNext

/-- The callback returns: the next message, or the next batch. -/
def afterCallback (s : SubscriptionHook) : SubscriptionHook :=
  match s.phase with
  | .inCallback pos (message :: rest) newReadPosition => s.deliver pos message rest newReadPosition
  | .inCallback _ [] newReadPosition => { s with lastReadPos := newReadPosition }.readNext
  | .idle => s

/-- The callback throws: the batch ends, and the position stays. -/
def afterThrow (s : SubscriptionHook) : SubscriptionHook :=
  match s.phase with
  | .inCallback _ _ _ => { s with phase := .idle, processing := false, thrown := true }
  | .idle => s

/-- The returned `unsubscribe`. -/
def unsubscribe (s : SubscriptionHook) : SubscriptionHook :=
  if s.hasUnsubscribed then s
  else
    { s with
      running := false
      listening := false
      hasUnsubscribed := true
      detachQueued := true
      log := s.log ++ [.unsubscribed] }

inductive Act
  /-- The manager writes a message and dispatches the event of the subscription, also from
  within a callback. -/
  | write (payload : Bytes)
  /-- The scheduled microtask runs. -/
  | process
  /-- The callback returns. -/
  | returned
  /-- The callback throws. -/
  | threw
  /-- `unsubscribe` is called, also from within a callback. -/
  | unsubscribe
  /-- The microtask that `unsubscribe` queued runs. -/
  | detach

/-- Microtasks, writes, the end of a callback in its two ways, and `unsubscribe` at any
moment. -/
def step (s : SubscriptionHook) : Act → SubscriptionHook
  | .write payload =>
    let (data, written) := writePayload s.data payload
    let s := { s with data }
    if written ∧ s.listening then s.scheduleProcess else s
  | .process =>
    if s.phase = .idle ∧ s.scheduled then { s with scheduled := false }.processEvents else s
  | .returned => s.afterCallback
  | .threw => s.afterThrow
  | .unsubscribe => s.unsubscribe
  | .detach =>
    if s.phase = .idle ∧ s.detachQueued then
      { s with attached := false, lastReadPos := 4, detachQueued := false }
    else s

/-! ### What is claimed, and when it holds -/

/-- Every message delivered lies behind those delivered before, and nothing is delivered
once `unsubscribe` was called. -/
def GoodLog : List HookEntry → Prop :=
  History.Always fun before entry => ∀ pos message, entry = .delivered pos message →
    .unsubscribed ∉ before ∧ ∀ p m, .delivered p m ∈ before → p < pos

/-- Later messages only, and none once the subscription was released. -/
def DeliveredRight (s : SubscriptionHook) (act : Act) : Prop := GoodLog (s.step act).log

/-- The hook does not process its buffer again after a callback threw, unless the
subscription was released; and when a callback returns with the subscription released,
nothing is left to read. -/
def Quiet (s : SubscriptionHook) : Act → Prop
  | .process => s.phase = .idle → s.scheduled → s.running → s.attached → ¬ s.thrown
  | .returned => ∀ pos rest newReadPosition, s.phase = .inCallback pos rest newReadPosition →
      s.running ∨ (rest = [] ∧ (readMessages s.data newReadPosition).hasNewData = false)
  | _ => True

/-! ### Where the hook stands -/

/-- Only messages in front of the place were delivered. -/
def Before (log : List HookEntry) (pos : ℕ) : Prop :=
  ∀ p m, .delivered p m ∈ log → p < pos

/-- The place of an attached hook among the messages of its buffer, of which it has moved
behind the first `i`. -/
def Place (s : SubscriptionHook) (msgs : List Bytes) (i : ℕ) : Prop :=
  match s.phase with
  | .idle => s.processing = false ∧
      -- a batch that a callback ended with an exception is still to be read, and was begun
      if s.thrown then i < msgs.length ∧ ∃ m, .delivered (4 + framePos msgs i) m ∈ s.log
      else Before s.log (4 + framePos msgs i)
  | .inCallback pos rest newReadPosition => s.processing = true ∧ s.thrown = false ∧
      i < msgs.length ∧ (∃ m, .delivered (4 + framePos msgs i) m ∈ s.log) ∧
      ∃ j n, j + n ≤ msgs.length ∧ pos = 4 + framePos msgs j ∧ rest = (msgs.drop j).take n ∧
        newReadPosition = 4 + framePos msgs (j + n) ∧ Before s.log pos

/-- The log says what the hook has done. -/
structure Recorded (s : SubscriptionHook) : Prop where
  good : GoodLog s.log
  released : s.running = false ↔ .unsubscribed ∈ s.log
  once : s.hasUnsubscribed = !s.running
  queued : s.detachQueued = true → s.running = false

/-- Where the hook stands in its buffer. -/
structure Hooked (s : SubscriptionHook) : Prop extends Recorded s where
  detached : s.attached = false → s.running = false ∧ s.phase = .idle
  place : ∃ msgs, Holds s.data msgs ∧ (s.attached = true → ∃ i, i ≤ msgs.length ∧
    s.lastReadPos = 4 + framePos msgs i ∧ s.Place msgs i)

variable {log : List HookEntry}

theorem goodLog_delivered {pos : ℕ} {message : Bytes} :
    GoodLog (log ++ [.delivered pos message]) ↔
      GoodLog log ∧ .unsubscribed ∉ log ∧ Before log pos := by
  rw [GoodLog, History.always_concat]
  refine and_congr_right fun _ => ⟨fun h => h pos message rfl, fun h p m heq => ?_⟩
  rw [← (HookEntry.delivered.inj heq).1]
  exact h

theorem goodLog_unsubscribed : GoodLog (log ++ [.unsubscribed]) ↔ GoodLog log := by
  rw [GoodLog, History.always_concat]
  exact and_iff_left fun _ _ heq => HookEntry.noConfusion heq

theorem before_concat {pos next : ℕ} {message : Bytes}
    (h : Before log pos) (hlt : pos < next) : Before (log ++ [.delivered pos message]) next := by
  intro p m hmem
  rcases List.mem_append.mp hmem with hold | hnew
  · exact (h p m hold).trans hlt
  · rw [(HookEntry.delivered.inj (List.mem_singleton.mp hnew)).1]
    exact hlt

theorem framePos_succ {msgs : List Bytes} {i : ℕ} (hi : i < msgs.length) :
    framePos msgs (i + 1) = framePos msgs i + (4 + msgs[i].length) := by
  rw [framePos_add, List.drop_eq_getElem_cons hi, framePos_cons_succ, framePos_zero, Nat.add_zero]

/-! ### Steps -/

section Steps

variable {s : SubscriptionHook} {msgs : List Bytes} {i : ℕ}

theorem readNext_cases (hholds : Holds s.data msgs) (hi : i ≤ msgs.length)
    (hpos : s.lastReadPos = 4 + framePos msgs i) (hattached : s.attached = true) :
    (i = msgs.length ∧ s.readNext = { s with phase := .idle, processing := false }) ∨
    ∃ (hlt : i < msgs.length) (n : ℕ), i + 1 + n ≤ msgs.length ∧
      s.readNext = s.deliver (4 + framePos msgs i) msgs[i] ((msgs.drop (i + 1)).take n)
        (4 + framePos msgs (i + 1 + n)) := by
  have hread := @Holds.readMessages _ _ hholds i s.lastReadPos hi (by rw [if_neg (by omega), hpos])
  rcases Nat.lt_or_eq_of_le hi with hlt | hend
  · refine .inr ⟨hlt, min 128 (msgs.length - i) - 1, by omega, ?_⟩
    have hmessages : (msgs.drop i).take ArrayBufferReader.maxMessages =
        msgs[i] :: (msgs.drop (i + 1)).take (min 128 (msgs.length - i) - 1) := by
      rw [List.drop_eq_getElem_cons hlt, ArrayBufferReader.maxMessages, List.take_succ_cons,
        List.take_eq_take_iff.mpr]
      rw [List.length_drop]
      omega
    have hend : min (i + ArrayBufferReader.maxMessages) msgs.length =
        i + 1 + (min 128 (msgs.length - i) - 1) := by
      rw [ArrayBufferReader.maxMessages]
      omega
    have hmax : max s.lastReadPos 4 = 4 + framePos msgs i := by omega
    rw [readNext, hread, hmessages, hend]
    dsimp only
    rw [if_pos ⟨decide_eq_true hlt, hattached⟩, hmax]
  · refine .inl ⟨hend, ?_⟩
    rw [readNext, hread, hend, List.drop_length, List.take_nil]

theorem deliver_right (hs : s.Recorded) {pos : ℕ} {message : Bytes} {rest : List Bytes} {next : ℕ} :
    GoodLog (s.deliver pos message rest next).log ↔ s.running = true ∧ Before s.log pos := by
  rw [deliver, goodLog_delivered, ← not_iff_not.mpr hs.released, Bool.not_eq_false]
  exact and_iff_right hs.good

theorem Recorded.deliver {t : SubscriptionHook} (hs : t.Recorded) (hholds : Holds t.data msgs)
    (hi : i ≤ msgs.length) (hpos : t.lastReadPos = 4 + framePos msgs i)
    (hprocessing : t.processing = true) (hthrown : t.thrown = false)
    (hattached : t.attached = true)
    {j n : ℕ} (hj : j < msgs.length) (hn : j + 1 + n ≤ msgs.length)
    (hfirst : i = j ∨ ∃ m, .delivered (4 + framePos msgs i) m ∈ t.log)
    (hright : GoodLog (t.deliver (4 + framePos msgs j) msgs[j] ((msgs.drop (j + 1)).take n)
      (4 + framePos msgs (j + 1 + n))).log) :
    (t.deliver (4 + framePos msgs j) msgs[j] ((msgs.drop (j + 1)).take n)
      (4 + framePos msgs (j + 1 + n))).Hooked where
  good := hright
  released := by
    show t.running = false ↔ _ ∈ t.log ++ _
    rw [List.mem_append, hs.released]
    exact (or_iff_left (by simp)).symm
  once := hs.once
  queued := hs.queued
  detached := fun h => by
    have : t.attached = false := h
    rw [hattached] at this
    contradiction
  place := by
    refine ⟨msgs, hholds, fun _ => ⟨i, hi, hpos, hprocessing, hthrown, ?_, ?_, j + 1, n, hn, ?_, rfl,
      rfl, ?_⟩⟩
    · rcases hfirst with rfl | hmem
      · exact hj
      · -- the batch was begun at a message of the buffer
        by_contra hge
        have hend : i = msgs.length := by omega
        obtain ⟨m, hmem⟩ := hmem
        have hbefore := ((deliver_right hs).mp hright).2 _ m hmem
        have := framePos_lt (show j < i by omega) hi
        omega
    · rcases hfirst with rfl | ⟨m, hmem⟩
      · exact ⟨msgs[i], List.mem_append_right _ (List.mem_singleton.mpr rfl)⟩
      · exact ⟨m, List.mem_append_left _ hmem⟩
    · rw [framePos_succ hj]
      omega
    · refine before_concat ((deliver_right hs).mp hright).2 ?_
      omega

theorem Recorded.settle (hs : s.Recorded) (hattached : s.attached = true)
    (hholds : Holds s.data msgs)
    (hpos : s.lastReadPos = 4 + framePos msgs msgs.length) (hthrown : s.thrown = false)
    (hbefore : Before s.log (4 + framePos msgs msgs.length)) :
    Hooked { s with phase := .idle, processing := false } where
  good := hs.good
  released := hs.released
  once := hs.once
  queued := hs.queued
  detached := fun h => by
    have : s.attached = false := h
    rw [hattached] at this
    contradiction
  place := ⟨msgs, hholds, fun _ => ⟨msgs.length, le_refl _, hpos, rfl, by
    show if s.thrown = true then _ else _
    rw [hthrown, if_neg Bool.false_ne_true]
    exact hbefore⟩⟩

theorem Hooked.write (hs : s.Hooked) (payload : Bytes) : (s.step (.write payload)).Hooked := by
  obtain ⟨msgs, hholds, hplace⟩ := hs.place
  have hdata : Hooked { s with data := (writePayload s.data payload).1 } := by
    refine ⟨⟨hs.good, hs.released, hs.once, hs.queued⟩, hs.detached, ?_⟩
    rcases hholds.writePayload payload with ⟨-, -, hmore⟩ | ⟨-, hfull⟩
    · refine ⟨msgs ++ [payload], hmore, fun hattached => ?_⟩
      obtain ⟨i, hi, hpos, hphase⟩ := hplace hattached
      refine ⟨i, by rw [List.length_append]; omega, by rw [framePos_append hi]; exact hpos, ?_⟩
      rw [Place] at hphase ⊢
      cases hcase : s.phase with
      | idle =>
        simp only [hcase] at hphase ⊢
        refine ⟨hphase.1, ?_⟩
        rw [framePos_append hi]
        split
        next h =>
          have hbegun := hphase.2
          rw [if_pos h] at hbegun
          exact ⟨by rw [List.length_append]; omega, hbegun.2⟩
        next h =>
          have hbefore := hphase.2
          rw [if_neg h] at hbefore
          exact hbefore
      | inCallback pos rest next =>
        simp only [hcase] at hphase ⊢
        obtain ⟨hprocessing, hthrown, hlt, hbegun, j, n, hn, hj, hrest, hnext, hbefore⟩ := hphase
        refine ⟨hprocessing, hthrown, by rw [List.length_append]; omega, ?_, j, n,
          by rw [List.length_append]; omega, ?_, ?_, ?_, hbefore⟩
        · rw [framePos_append hi]
          exact hbegun
        · rw [framePos_append (by omega), hj]
        · rw [List.drop_append_of_le_length (by omega),
            List.take_append_of_le_length (by rw [List.length_drop]; omega), hrest]
        · rw [framePos_append hn, hnext]
    · rw [hfull]
      exact ⟨msgs, hholds, hplace⟩
  rw [step]
  dsimp only
  split
  · rw [scheduleProcess]
    split
    · exact hdata
    split
    · exact hdata
    · exact ⟨⟨hdata.good, hdata.released, hdata.once, hdata.queued⟩, hdata.detached, hdata.place⟩
  · exact hdata

theorem Hooked.unsubscribe (hs : s.Hooked) : s.unsubscribe.Hooked := by
  rw [SubscriptionHook.unsubscribe]
  split
  · exact hs
  obtain ⟨msgs, hholds, hplace⟩ := hs.place
  have hmem : ∀ p m, .delivered p m ∈ s.log ++ [.unsubscribed] ↔ .delivered p m ∈ s.log := by
    intro p m
    rw [List.mem_append]
    exact or_iff_left (by simp)
  have hbefore : ∀ pos, Before (s.log ++ [.unsubscribed]) pos ↔ Before s.log pos := by
    intro pos
    simp only [Before, hmem]
  refine ⟨⟨goodLog_unsubscribed.mpr hs.good, ?_, rfl, fun _ => rfl⟩,
    fun h => ⟨rfl, (hs.detached h).2⟩, msgs, hholds, fun hattached => ?_⟩
  · exact iff_of_true rfl (List.mem_append_right _ (List.mem_singleton.mpr rfl))
  · obtain ⟨i, hi, hpos, hphase⟩ := hplace hattached
    refine ⟨i, hi, hpos, ?_⟩
    rw [Place] at hphase ⊢
    simp only [hmem, hbefore]
    exact hphase

theorem Hooked.detach (hs : s.Hooked) : (s.step .detach).Hooked := by
  rw [step]
  split
  next h =>
    obtain ⟨msgs, hholds, -⟩ := hs.place
    refine ⟨⟨hs.good, hs.released, hs.once, fun hqueued => absurd hqueued Bool.false_ne_true⟩,
      fun _ => ⟨hs.queued h.2, h.1⟩, msgs, hholds, fun hattached => ?_⟩
    exact absurd hattached Bool.false_ne_true
  · exact hs

theorem Hooked.threw (hs : s.Hooked) : s.afterThrow.Hooked := by
  rw [afterThrow]
  split
  next pos rest next hphase =>
    obtain ⟨msgs, hholds, hplace⟩ := hs.place
    refine ⟨⟨hs.good, hs.released, hs.once, hs.queued⟩, fun h => ⟨(hs.detached h).1, rfl⟩,
      msgs, hholds, fun hattached => ?_⟩
    obtain ⟨i, hi, hpos, hcase⟩ := hplace hattached
    simp only [Place, hphase] at hcase
    exact ⟨i, hi, hpos, rfl, hcase.2.2.1, hcase.2.2.2.1⟩
  · exact hs

theorem process_eq (hidle : s.phase = .idle) (hscheduled : s.scheduled = true)
    (hrunning : s.running = true) (hattached : s.attached = true)
    (hprocessing : s.processing = false) :
    s.step .process = { s with scheduled := false, processing := true }.readNext := by
  rw [step, if_pos ⟨hidle, hscheduled⟩, processEvents,
    if_neg (by simp only [hrunning, hattached, not_true_eq_false, or_self, not_false_eq_true]),
    if_neg (by simp only [hprocessing, Bool.false_eq_true, not_false_eq_true])]

theorem Hooked.process_off (hs : s.Hooked) (hoff : s.running = false ∨ s.attached = false) :
    (s.step .process).Hooked ∧ GoodLog (s.step .process).log := by
  rw [step]
  split
  next h =>
    rw [processEvents, if_pos (by rcases hoff with h | h <;> simp [h])]
    refine ⟨⟨⟨hs.good, hs.released, hs.once, hs.queued⟩, hs.detached, ?_⟩, hs.good⟩
    obtain ⟨msgs, hholds, hplace⟩ := hs.place
    refine ⟨msgs, hholds, fun hattached => ?_⟩
    obtain ⟨i, hi, hpos, hcase⟩ := hplace hattached
    simp only [Place, h.1] at hcase
    refine ⟨i, hi, hpos, ?_⟩
    simp only [Place, h.1]
    exact ⟨trivial, hcase.2⟩
  · exact ⟨hs, hs.good⟩

theorem Hooked.process (hs : s.Hooked) :
    (s.DeliveredRight .process ↔ s.Quiet .process) ∧
      (s.DeliveredRight .process → (s.step .process).Hooked) := by
  by_cases hon : s.running = true ∧ s.attached = true
  · obtain ⟨hrunning, hattached⟩ := hon
    by_cases hready : s.phase = .idle ∧ s.scheduled = true
    · obtain ⟨hidle, hscheduled⟩ := hready
      obtain ⟨msgs, hholds, hplace⟩ := hs.place
      obtain ⟨i, hi, hpos, hcase⟩ := hplace hattached
      simp only [Place, hidle] at hcase
      obtain ⟨hprocessing, hcase⟩ := hcase
      have heq := process_eq hidle hscheduled hrunning hattached hprocessing
      -- the hook as it enters the loop
      set entered : SubscriptionHook := { s with scheduled := false, processing := true }
        with hentered
      have hrecorded : entered.Recorded := ⟨hs.good, hs.released, hs.once, hs.queued⟩
      rw [DeliveredRight, heq]
      by_cases hthrown : s.thrown = true
      · -- the first message of the batch was delivered before
        rw [if_pos hthrown] at hcase
        obtain ⟨hlt, m, hmem⟩ := hcase
        have hwrong : ¬ GoodLog entered.readNext.log := by
          rcases readNext_cases (s := entered) hholds hi hpos hattached with
            ⟨hend, -⟩ | ⟨hlt', n, hn, hread⟩
          · omega
          · rw [hread, deliver_right hrecorded]
            exact fun h => absurd (h.2 _ m hmem) (lt_irrefl _)
        exact ⟨iff_of_false hwrong fun h => h hidle hscheduled hrunning hattached hthrown,
          fun h => absurd h hwrong⟩
      · rw [if_neg hthrown] at hcase
        have hquiet : s.Quiet .process := fun _ _ _ _ => hthrown
        have hoff : entered.thrown = false := Bool.not_eq_true _ ▸ hthrown
        rcases readNext_cases (s := entered) hholds hi hpos hattached with
          ⟨hend, hread⟩ | ⟨hlt, n, hn, hread⟩
        · rw [hread]
          subst hend
          exact ⟨iff_of_true hs.good hquiet,
            fun _ => hrecorded.settle hattached hholds hpos hoff hcase⟩
        · rw [hread]
          have hright := (@deliver_right _ hrecorded (4 + framePos msgs i) msgs[i]
            ((msgs.drop (i + 1)).take n) (4 + framePos msgs (i + 1 + n))).mpr ⟨hrunning, hcase⟩
          exact ⟨iff_of_true hright hquiet, fun _ =>
            hrecorded.deliver hholds hi hpos rfl hoff hattached hlt hn (.inl rfl) hright⟩
    · have hsame : s.step .process = s := by rw [step, if_neg hready]
      refine ⟨?_, fun _ => hsame.symm ▸ hs⟩
      rw [DeliveredRight, hsame]
      refine iff_of_true hs.good fun hidle hscheduled => absurd ⟨hidle, hscheduled⟩ hready
  · have hoff : s.running = false ∨ s.attached = false := by
      rw [not_and_or, Bool.not_eq_true, Bool.not_eq_true] at hon
      exact hon
    obtain ⟨hhooked, hgood⟩ := hs.process_off hoff
    refine ⟨iff_of_true hgood fun _ _ hrunning hattached => ?_, fun _ => hhooked⟩
    exact absurd ⟨hrunning, hattached⟩ hon

/-- The return of a callback delivers right exactly when the subscription is on or nothing is
left, and keeps the place then. -/
theorem Hooked.returned (hs : s.Hooked) :
    (s.DeliveredRight .returned ↔ s.Quiet .returned) ∧
      (s.DeliveredRight .returned → (s.step .returned).Hooked) := by
  cases hphase : s.phase with
  | idle =>
    have hsame : s.step .returned = s := by simp only [step, afterCallback, hphase]
    rw [DeliveredRight, hsame]
    refine ⟨iff_of_true hs.good fun pos rest next h => ?_, fun _ => hs⟩
    rw [hphase] at h
    contradiction
  | inCallback pos rest next =>
    have hattached : s.attached = true := by
      by_contra hoff
      have := (hs.detached (Bool.not_eq_true _ ▸ hoff)).2
      rw [hphase] at this
      contradiction
    obtain ⟨msgs, hholds, hplace⟩ := hs.place
    obtain ⟨i, hi, hpos, hcase⟩ := hplace hattached
    simp only [Place, hphase] at hcase
    obtain ⟨hprocessing, hthrown, hlt, hbegun, j, n, hn, rfl, hrest, rfl, hbefore⟩ := hcase
    rw [DeliveredRight]
    -- the condition, at this step
    have hquiet : s.Quiet .returned ↔ s.running = true ∨
        (rest = [] ∧ (readMessages s.data (4 + framePos msgs (j + n))).hasNewData = false) := by
      constructor
      · exact fun h => h _ _ _ hphase
      · intro h pos' rest' next' heq
        rw [hphase] at heq
        obtain ⟨rfl, rfl, rfl⟩ := HookPhase.inCallback.inj heq
        exact h
    cases n with
    | succ n =>
      -- the batch goes on
      have hj : j < msgs.length := by omega
      have hnext : rest = msgs[j] :: (msgs.drop (j + 1)).take n := by
        rw [hrest, List.drop_eq_getElem_cons hj, List.take_succ_cons]
      have hstep : s.step .returned = s.deliver (4 + framePos msgs j) msgs[j]
          ((msgs.drop (j + 1)).take n) (4 + framePos msgs (j + 1 + n)) := by
        rw [show j + 1 + n = j + (n + 1) by omega]
        simp only [step, afterCallback, hphase, hnext]
      rw [hstep, hquiet, hnext]
      refine ⟨?_, fun hright => hs.toRecorded.deliver hholds hi hpos hprocessing hthrown hattached
        hj (by omega) (.inr hbegun) hright⟩
      rw [deliver_right hs.toRecorded]
      constructor
      · exact fun h => .inl h.1
      · rintro (h | ⟨h, -⟩)
        · exact ⟨h, hbefore⟩
        · contradiction
    | zero =>
      -- the batch is done, and the next one is read
      have hnil : rest = [] := by rw [hrest, List.take_zero]
      have hstep : s.step .returned =
          { s with lastReadPos := 4 + framePos msgs j }.readNext := by
        simp only [step, afterCallback, hphase, hnil, Nat.add_zero]
      set moved : SubscriptionHook := { s with lastReadPos := 4 + framePos msgs j } with hmoved
      have hrecorded : moved.Recorded := ⟨hs.good, hs.released, hs.once, hs.queued⟩
      have hread : (readMessages s.data (4 + framePos msgs (j + 0))).hasNewData =
          decide (j < msgs.length) := by
        rw [Nat.add_zero, hholds.readMessages (i := j) (by omega) (by rw [if_neg (by omega)])]
      rw [hstep, hquiet, hread]
      rcases readNext_cases (s := moved) hholds (by omega : j ≤ msgs.length) rfl hattached with
        ⟨hend, hnext⟩ | ⟨hj, n, hn, hnext⟩
      · rw [hnext]
        subst hend
        refine ⟨iff_of_true hs.good (.inr ⟨hnil, decide_eq_false (lt_irrefl _)⟩), fun _ => ?_⟩
        exact hrecorded.settle hattached hholds rfl hthrown hbefore
      · rw [hnext]
        refine ⟨?_, fun hright => hrecorded.deliver hholds (by omega : j ≤ msgs.length) rfl
          hprocessing hthrown hattached hj hn (.inl rfl) hright⟩
        rw [deliver_right hrecorded]
        constructor
        · exact fun h => .inl h.1
        · rintro (h | ⟨-, h⟩)
          · exact ⟨h, hbefore⟩
          · exact absurd hj (of_decide_eq_false h)

theorem Hooked.step (hs : s.Hooked) (act : Act) :
    (s.DeliveredRight act ↔ s.Quiet act) ∧ (s.DeliveredRight act → (s.step act).Hooked) := by
  have hkeeps : ∀ {act : Act}, s.Quiet act → (s.step act).Hooked →
      (s.DeliveredRight act ↔ s.Quiet act) ∧ (s.DeliveredRight act → (s.step act).Hooked) :=
    fun hquiet h => ⟨iff_of_true h.good hquiet, fun _ => h⟩
  cases act with
  | write payload => exact hkeeps trivial (hs.write payload)
  | process => exact hs.process
  | returned => exact hs.returned
  | threw => exact hkeeps trivial hs.threw
  | unsubscribe => exact hkeeps trivial hs.unsubscribe
  | detach => exact hkeeps trivial hs.detach

end Steps

theorem hooked_start {size : ℕ} (h4 : 4 ≤ size) (hshort : size < 2 ^ 32) : (start size).Hooked where
  good := History.always_nil
  released := iff_of_false (fun h => Bool.noConfusion (h : true = false)) List.not_mem_nil
  once := rfl
  queued := fun h => absurd h Bool.false_ne_true
  detached := fun h => Bool.noConfusion (h : true = false)
  place := ⟨[], ArrayBufferReader.holds_newBuffer h4 hshort, fun _ => ⟨0, le_refl _, rfl, rfl, by
    show Before [] _
    exact fun p m h => absurd h List.not_mem_nil⟩⟩

/-- **Delivery by the hook.**  In a buffer of less than `2 ^ 32` bytes a run delivers right —
messages further and further back in the buffer, and none once the subscription was released
— exactly when all its steps are quiet. -/
theorem delivered_right_iff (size : ℕ) (acts : List Act) (h4 : 4 ≤ size) (hshort : size < 2 ^ 32) :
    Run.Along step DeliveredRight (start size) acts ↔ Run.Along step Quiet (start size) acts := by
  have hstart := hooked_start h4 hshort
  constructor
  · exact Run.Along.imp (fun s act hs hright => (hs.step act).2 hright)
      (fun s act hs hright => (hs.step act).1.mp hright) hstart
  · exact Run.Along.imp (fun s act hs hquiet => (hs.step act).2 ((hs.step act).1.mpr hquiet))
      (fun s act hs hquiet => (hs.step act).1.mpr hquiet) hstart

theorem delivered_right_iff_sample :
    Run.Along step DeliveredRight (start 64)
      [.write [1], .write [2], .process, .returned, .write [3], .returned, .unsubscribe, .threw,
        .detach] := by
  refine (delivered_right_iff 64 _ (by decide) (by decide)).mpr
    ⟨trivial, trivial, fun _ _ _ _ => by decide, fun _ _ _ _ => .inl (by decide), trivial,
      fun _ _ _ _ => .inl (by decide), trivial, trivial, trivial, trivial⟩

/-- The callback releases the subscription on the first of two messages, and gets the second. -/
theorem released_hook_delivers :
    ¬ Run.Along step DeliveredRight (start 64)
      [.write [1], .write [2], .process, .unsubscribe, .returned] := by
  intro h
  have hlog : ((((((start 64).step (.write [1])).step (.write [2])).step .process).step
      .unsubscribe).step .returned).log =
      [.delivered 4 [1], .unsubscribed] ++ [.delivered 9 [2]] := by decide
  have hright := h.2.2.2.2.1
  rw [DeliveredRight, hlog, goodLog_delivered] at hright
  exact hright.2.1 (by decide)

end SubscriptionHook
end Nipworker
