/-
A native subscription buffer as a stream (`crates/native-ffi/src/lib.rs`).

The engine appends, the host reads whole frames up to the cursor, and once it has read
everything it moves the cursor back to 4, if the cursor is still where it stopped.  The
cursor is a number of 32 bits.
-/
import Nipworker.Lib.Run
import Nipworker.Native.SubscriptionStore

namespace Nipworker

open ArrayBufferReader (Holds)

/-- The store and its host: where the host stands in each buffer and what it has read, with
the payloads appended so far. -/
structure Stream where
  store : NativeSubscriptionStore
  host : String → ℕ
  read : String → List Bytes
  appended : String → List Bytes

namespace Stream

/-- What may happen: a batch of events, or a step of the host. -/
inductive Act
  | batch (events : List (String × Bytes))
  /-- The host reads one whole frame below the write cursor. -/
  | readFrame (subId : String)
  /-- The host asks for the reset with the position it has read up to. -/
  | tryReset (subId : String)

/-- The bytes that the host has not read yet, up to the cursor. -/
def unread (s : Stream) (subId : String) (sub : NativeSubscription) : Bytes :=
  (sub.backing.take sub.writePos).drop (s.host subId)

/-- Batches, reads and resets, in any order, on any subscriptions. -/
def step (s : Stream) : Act → Stream
  | .batch events =>
    { s with
      store := (applyEventBatch s.store events).1
      appended := fun subId => s.appended subId ++ appendedTo subId s.store events }
  | .readFrame subId =>
    match s.store.get subId with
    | some sub =>
      match takeFrame (s.unread subId sub) with
      | some (payload, _) =>
        { s with
          host := Function.update s.host subId (s.host subId + (4 + payload.length))
          read := Function.update s.read subId (s.read subId ++ [payload]) }
      | none => s
    | none => s
  | .tryReset subId =>
    match s.store.get subId with
    | some sub =>
      match sub.tryReset (s.host subId) with
      | (sub, true) =>
        { s with store := s.store.set subId sub, host := Function.update s.host subId 4 }
      | (_, false) => s
    | none => s

/-- The store after some registrations, and a host that has read nothing. -/
def start (registrations : List (String × ℕ × Bool)) : Stream where
  store := registrations.foldl (fun store r => store.register r.1 r.2.1 r.2.2) .new
  host := fun _ => 4
  read := fun _ => []
  appended := fun _ => []

/-- The cursor stands behind whole frames, and the payloads appended are those read and
those still to be read, in order. -/
structure Good (s : Stream) (subId : String) (sub : NativeSubscription) : Prop where
  cursor : 4 ≤ sub.writePos ∧ sub.writePos ≤ sub.backing.length
  boundary : ∃ payloads, (sub.backing.take sub.writePos).drop 4 = frameLog payloads
  whole : s.unread subId sub = frameLog (unframe (s.unread subId sub))
  stream : s.appended subId = s.read subId ++ unframe (s.unread subId sub)

/-- Every subscription buffer is good; crypto responses have none. -/
def AllGood (s : Stream) : Prop :=
  ∀ subId sub, ¬ IsDirect subId → s.store.get subId = some sub → s.Good subId sub

/-! ### The layout -/

/-- The payloads since the last reset, of which the host has read the first ones. -/
def Kept (s : Stream) (subId : String) (sub : NativeSubscription) : Prop :=
  ∃ payloads i, i ≤ payloads.length ∧ Holds sub.backing payloads ∧
    s.host subId = 4 + framePos payloads i ∧
    s.appended subId = s.read subId ++ payloads.drop i

variable {sub : NativeSubscription} {payloads : List Bytes} {s : Stream} {subId : String}
    (registrations : List (String × ℕ × Bool))

theorem take_writePos (h : Holds sub.backing payloads) :
    sub.writePos = 4 + (frameLog payloads).length ∧
      (sub.backing.take sub.writePos).drop 4 = frameLog payloads := by
  have hpos : sub.writePos = 4 + (frameLog payloads).length := by
    rw [← h.writePosition, ArrayBufferReader.getUint32, List.drop_zero, NativeSubscription.writePos]
  obtain ⟨room, hlayout⟩ := h.layout
  refine ⟨hpos, ?_⟩
  rw [hpos, hlayout, List.take_left' (by rw [List.length_append, U32.length_toLeBytes]),
    List.drop_left' (U32.length_toLeBytes _)]

theorem unread_eq {i : ℕ} (h : Holds sub.backing payloads)
    (hhost : s.host subId = 4 + framePos payloads i) :
    s.unread subId sub = frameLog (payloads.drop i) := by
  rw [unread, hhost, ← List.drop_drop, (take_writePos h).2, drop_frameLog]

theorem short_of_holds {buffer : Bytes} (h : Holds buffer payloads) :
    ∀ payload ∈ payloads, payload.length < 2 ^ 32 := by
  intro payload hmem
  have hle := h.length_le
  have hshort := h.short
  obtain ⟨before, after, rfl⟩ := List.append_of_mem hmem
  rw [frameLog_append, List.length_append, length_frameLog_cons] at hle
  omega

theorem Kept.good (h : s.Kept subId sub) : s.Good subId sub := by
  obtain ⟨payloads, i, hi, hholds, hhost, happended⟩ := h
  have hunread := unread_eq hholds hhost
  have hpos := take_writePos hholds
  have hle := hholds.length_le
  have hread : unframe (s.unread subId sub) = payloads.drop i := by
    rw [hunread]
    exact unframe_frameLog fun x hx => short_of_holds hholds x (List.mem_of_mem_drop hx)
  exact {
    cursor := ⟨by omega, by omega⟩
    boundary := ⟨payloads, hpos.2⟩
    whole := by rw [hread, hunread]
    stream := by rw [hread, happended] }

/-! ### What the steps keep -/

theorem append_holds (h : Holds sub.backing payloads) (payload : Bytes) :
    (∃ sub', sub.appendPayload payload = (sub', true) ∧
      Holds sub'.backing (payloads ++ [payload])) ∨
    ∃ sub', sub.appendPayload payload = (sub', false) := by
  rw [NativeSubscription.appendPayload_eq]
  rcases h.writePayload payload with ⟨-, hok, hholds⟩ | ⟨-, hrefused⟩
  · exact .inl ⟨_, by rw [hok], hholds⟩
  · exact .inr ⟨_, by rw [hrefused]⟩

theorem holds_events (hdirect : ¬ IsDirect subId)
    (events : List (String × Bytes)) (loop : BatchLoop) (hsub : loop.store.get subId = some sub)
    (hholds : Holds sub.backing payloads) :
    ∃ sub', (loop.events events).store.get subId = some sub' ∧
      Holds sub'.backing (payloads ++ appendedTo subId loop.store events) := by
  induction events generalizing loop sub payloads with
  | nil =>
    refine ⟨sub, hsub, ?_⟩
    rw [show appendedTo subId loop.store [] = [] from rfl, List.append_nil]
    exact hholds
  | cons event rest ih =>
    obtain ⟨id, bytes⟩ := event
    show ∃ sub', ((loop.event id bytes).events rest).store.get subId = some sub' ∧ _
    by_cases hid : IsDirect id
    · -- passed through
      have hstore : (loop.event id bytes).store = loop.store := by
        rw [BatchLoop.event, if_pos hid]
      have hto : appendedTo subId loop.store ((id, bytes) :: rest) =
          appendedTo subId loop.store rest := by
        rw [appendedTo, appendedTo, appendedIn, if_pos hid]
      rw [hto, ← hstore]
      exact ih _ (hstore ▸ hsub) hholds
    · cases hout : loop.store.appendPayload id bytes with
      | mk store outcome =>
      have hstore : (loop.event id bytes).store = store := by
        simp only [BatchLoop.event, if_neg hid, hout]
        cases outcome with
        | written =>
          dsimp only
          split
          · rfl
          · rfl
        | full closeOnCleanup =>
          dsimp only
          split
          · rfl
          · rfl
        | missing => rfl
      by_cases hsame : id = subId
      · subst hsame
        rcases append_holds hholds bytes with ⟨sub', happend, hholds'⟩ | ⟨sub', happend⟩
        · -- appended to this buffer
          simp only [NativeSubscriptionStore.appendPayload, hsub, happend, Prod.mk.injEq] at hout
          obtain ⟨rfl, rfl⟩ := hout
          have hto : appendedTo id loop.store ((id, bytes) :: rest) =
              bytes :: appendedTo id (loop.store.set id sub') rest := by
            simp only [appendedTo, appendedIn, if_neg hid,
              NativeSubscriptionStore.appendPayload, hsub, happend, List.filter_cons, decide_true,
              if_true, List.map_cons]
          rw [hto, List.append_cons, ← hstore]
          exact ih _ (by rw [hstore, NativeSubscriptionStore.get_set, if_pos rfl]) hholds'
        · -- refused
          simp only [NativeSubscriptionStore.appendPayload, hsub, happend, Prod.mk.injEq] at hout
          obtain ⟨rfl, rfl⟩ := hout
          have hto : appendedTo id loop.store ((id, bytes) :: rest) =
              appendedTo id loop.store rest := by
            simp only [appendedTo, appendedIn, if_neg hid,
              NativeSubscriptionStore.appendPayload, hsub, happend]
          rw [hto, ← hstore]
          exact ih _ (hstore ▸ hsub) hholds
      · -- another buffer
        have hget : store.get subId = loop.store.get subId := by
          simp only [NativeSubscriptionStore.appendPayload] at hout
          split at hout
          · split at hout
            · obtain ⟨rfl, -⟩ := Prod.mk.inj hout
              rw [NativeSubscriptionStore.get_set, if_neg (Ne.symm hsame)]
            · obtain ⟨rfl, -⟩ := Prod.mk.inj hout
              rfl
          · obtain ⟨rfl, -⟩ := Prod.mk.inj hout
            rfl
        have hto : appendedTo subId loop.store ((id, bytes) :: rest) =
            appendedTo subId store rest := by
          cases outcome with
          | written =>
            simp only [appendedTo, appendedIn, if_neg hid, hout, List.filter_cons, hsame,
              decide_false, Bool.false_eq_true, if_false]
          | full closeOnCleanup => simp only [appendedTo, appendedIn, if_neg hid, hout]
          | missing => simp only [appendedTo, appendedIn, if_neg hid, hout]
        rw [hto, ← hstore]
        exact ih _ (by rw [hstore, hget, hsub]) hholds

theorem get_events_none (events : List (String × Bytes)) (loop : BatchLoop)
    (hnone : loop.store.get subId = none) : (loop.events events).store.get subId = none := by
  induction events generalizing loop with
  | nil => exact hnone
  | cons event rest ih =>
    obtain ⟨id, bytes⟩ := event
    refine ih _ ?_
    show (loop.event id bytes).store.get subId = none
    by_cases hid : IsDirect id
    · rw [BatchLoop.event, if_pos hid]
      exact hnone
    cases hget : loop.store.get id with
    | none =>
      have hout : loop.store.appendPayload id bytes = (loop.store, .missing) := by
        simp only [NativeSubscriptionStore.appendPayload, hget]
      simp only [BatchLoop.event, if_neg hid, hout, hnone]
    | some sub =>
      have hne : subId ≠ id := by
        rintro rfl
        rw [hnone] at hget
        contradiction
      cases happend : sub.appendPayload bytes with
      | mk sub' ok =>
      cases ok with
      | true =>
        have hout : loop.store.appendPayload id bytes = (loop.store.set id sub', .written) := by
          simp only [NativeSubscriptionStore.appendPayload, hget, happend]
        simp only [BatchLoop.event, if_neg hid, hout]
        split
        · rw [NativeSubscriptionStore.get_set, if_neg hne, hnone]
        · rw [NativeSubscriptionStore.get_set, if_neg hne, hnone]
      | false =>
        have hout : loop.store.appendPayload id bytes =
            (loop.store, .full sub'.closeOnCleanup) := by
          simp only [NativeSubscriptionStore.appendPayload, hget, happend]
        simp only [BatchLoop.event, if_neg hid, hout]
        split
        · exact hnone
        · exact hnone

def AllKept (s : Stream) : Prop :=
  ∀ subId sub, ¬ IsDirect subId → s.store.get subId = some sub → s.Kept subId sub

theorem AllKept.batch (hs : s.AllKept) (events : List (String × Bytes)) :
    (s.step (.batch events)).AllKept := by
  intro subId sub hdirect hsub
  cases hold : s.store.get subId with
  | none =>
    have := get_events_none events (BatchLoop.start s.store) hold
    exact absurd (this.symm.trans hsub) (by simp)
  | some old =>
    obtain ⟨payloads, i, hi, hholds, hhost, happended⟩ := hs subId old hdirect hold
    obtain ⟨sub', hsub', hholds'⟩ :=
      holds_events hdirect events (BatchLoop.start s.store) hold hholds
    obtain rfl : sub' = sub := Option.some.inj (hsub'.symm.trans hsub)
    refine ⟨payloads ++ appendedTo subId s.store events, i, ?_, hholds', ?_, ?_⟩
    · rw [List.length_append]
      omega
    · rw [framePos_append hi]
      exact hhost
    · show s.appended subId ++ _ = s.read subId ++ _
      rw [happended, List.drop_append_of_le_length hi, List.append_assoc]

theorem AllKept.readFrame (hs : s.AllKept) (id : String) : (s.step (.readFrame id)).AllKept := by
  rw [step]
  split
  next sub hsub =>
    split
    next payload rest htake =>
      intro subId sub' hdirect hsub'
      obtain ⟨payloads, i, hi, hholds, hhost, happended⟩ := hs subId sub' hdirect hsub'
      by_cases hid : subId = id
      · subst hid
        obtain rfl : sub' = sub := Option.some.inj (hsub'.symm.trans hsub)
        rw [unread_eq hholds hhost] at htake
        -- a frame is left, and it is that of the next payload
        have hlt : i < payloads.length := by
          by_contra hge
          rw [List.drop_of_length_le (Nat.not_lt.mp hge), frameLog_nil] at htake
          contradiction
        have hdrop : payloads.drop i = payloads[i] :: payloads.drop (i + 1) :=
          List.drop_eq_getElem_cons hlt
        rw [hdrop, frameLog_cons,
          takeFrame_frame (short_of_holds hholds _ (List.getElem_mem hlt))] at htake
        obtain rfl : payloads[i] = payload := (Prod.mk.inj (Option.some.inj htake)).1
        refine ⟨payloads, i + 1, hlt, hholds, ?_, ?_⟩
        · show Function.update s.host subId _ subId = _
          rw [Function.update_self, hhost, framePos_add, hdrop, framePos_cons_succ, framePos_zero]
          omega
        · show s.appended subId = Function.update s.read subId _ subId ++ _
          rw [Function.update_self, happended, hdrop, List.append_cons]
      · refine ⟨payloads, i, hi, hholds, ?_, ?_⟩
        · show Function.update s.host id _ subId = _
          rw [Function.update_of_ne hid, hhost]
        · show s.appended subId = Function.update s.read id _ subId ++ _
          rw [Function.update_of_ne hid, happended]
    · exact hs
  · exact hs

theorem AllKept.tryReset (hs : s.AllKept) (id : String) : (s.step (.tryReset id)).AllKept := by
  rw [step]
  split
  next old hold =>
    split
    next new hnew =>
      intro subId sub' hdirect hsub'
      rw [NativeSubscriptionStore.get_set] at hsub'
      by_cases hid : subId = id
      · subst hid
        rw [if_pos rfl] at hsub'
        obtain rfl : new = sub' := Option.some.inj hsub'
        obtain ⟨payloads, i, hi, hholds, hhost, happended⟩ := hs subId old hdirect hold
        rw [NativeSubscription.tryReset] at hnew
        split at hnew
        · exact absurd (Prod.mk.inj hnew).2 (by decide)
        next hsame =>
          -- the host stands at the cursor, so that nothing is left to read
          have hpos := (take_writePos hholds).1
          have hall : i = payloads.length := by
            by_contra hne
            have := framePos_lt (show i < payloads.length by omega) (le_refl _)
            rw [framePos_length] at this
            rw [hhost] at hsame
            omega
          have hbacking : new.backing = U32.toLeBytes 4 ++ old.backing.drop 4 := by
            rw [← (Prod.mk.inj hnew).1]
            exact ArrayBufferReader.setBytes_append [] old.backing (U32.toLeBytes 4)
          refine ⟨[], 0, le_refl _, ⟨⟨old.backing.drop 4, ?_⟩, ?_⟩, ?_, ?_⟩
          · rw [hbacking, frameLog_nil, List.append_nil]
            rfl
          · have := hholds.short
            have := hholds.length_le
            rw [hbacking, List.length_append, U32.length_toLeBytes, List.length_drop]
            omega
          · show Function.update s.host subId 4 subId = _
            rw [Function.update_self, framePos_zero]
          · rw [happended, hall, List.drop_length, List.drop_nil]
      · rw [if_neg hid] at hsub'
        obtain ⟨payloads, i, hi, hholds, hhost, happended⟩ := hs subId sub' hdirect hsub'
        refine ⟨payloads, i, hi, hholds, ?_, happended⟩
        show Function.update s.host id 4 subId = _
        rw [Function.update_of_ne hid, hhost]
    · exact hs
  · exact hs

theorem AllKept.step (hs : s.AllKept) (act : Act) : (s.step act).AllKept := by
  cases act with
  | batch events => exact hs.batch events
  | readFrame subId => exact hs.readFrame subId
  | tryReset subId => exact hs.tryReset subId

/-! ### New buffers -/

theorem backing_start (hsub : (start registrations).store.get subId = some sub) :
    ∃ size, 4 ≤ size ∧ sub.backing = ArrayBufferReader.newBuffer size := by
  have hkeep : ∀ (regs : List (String × ℕ × Bool)) (store : NativeSubscriptionStore),
      (∀ id sub, store.get id = some sub →
        ∃ size, 4 ≤ size ∧ sub.backing = ArrayBufferReader.newBuffer size) →
      ∀ id sub, (regs.foldl (fun store r => store.register r.1 r.2.1 r.2.2) store).get id = some sub →
        ∃ size, 4 ≤ size ∧ sub.backing = ArrayBufferReader.newBuffer size := by
    intro regs
    induction regs with
    | nil => exact fun store h => h
    | cons r rest ih =>
      intro store h
      refine ih _ ?_
      intro id sub hget
      replace hget : (store.register r.1 r.2.1 r.2.2).get id = some sub := hget
      rw [NativeSubscriptionStore.register] at hget
      split at hget
      next existing hexisting =>
        rw [NativeSubscriptionStore.get_set] at hget
        split at hget
        · obtain rfl := Option.some.inj hget
          exact h r.1 existing hexisting
        · exact h id sub hget
      next hnone =>
        rw [NativeSubscriptionStore.get_set] at hget
        split at hget
        · obtain rfl := Option.some.inj hget
          exact ⟨max r.2.1 4, Nat.le_max_right _ _, rfl⟩
        · exact h id sub hget
  refine hkeep registrations .new ?_ subId sub hsub
  intro id sub h
  exact absurd h (by simp [NativeSubscriptionStore.get, NativeSubscriptionStore.new])

theorem length_newBuffer {size : ℕ} (h : 4 ≤ size) :
    (ArrayBufferReader.newBuffer size).length = size := by
  rw [show ArrayBufferReader.newBuffer size = U32.toLeBytes 4 ++ (List.replicate size 0).drop 4 from
    ArrayBufferReader.setBytes_append [] (List.replicate size 0) (U32.toLeBytes 4),
    List.length_append, U32.length_toLeBytes, List.length_drop, List.length_replicate]
  omega

theorem allKept_start
    (hshort : ∀ subId sub, ¬ IsDirect subId → (start registrations).store.get subId = some sub →
      sub.backing.length < 2 ^ 32) : (start registrations).AllKept := by
  intro subId sub hdirect hsub
  obtain ⟨size, h4, hbacking⟩ := backing_start registrations hsub
  have hlen := hshort subId sub hdirect hsub
  refine ⟨[], 0, le_refl _, ?_, rfl, rfl⟩
  rw [hbacking, length_newBuffer h4] at hlen
  rw [hbacking]
  exact ArrayBufferReader.holds_newBuffer h4 hlen

/-! ### Long buffers -/

theorem writePos_wraps {size : ℕ} (h4 : 4 ≤ size)
    (hbacking : sub.backing = ArrayBufferReader.newBuffer size) (hlong : 2 ^ 32 ≤ size)
    {payload : Bytes} (hlength : payload.length = 2 ^ 32 - 8) :
    ∃ sub', sub.appendPayload payload = (sub', true) ∧ sub'.writePos = 0 := by
  have hpos : sub.writePos = 4 := by
    rw [NativeSubscription.writePos, hbacking,
      show ArrayBufferReader.newBuffer size = U32.toLeBytes 4 ++ (List.replicate size 0).drop 4 from
        ArrayBufferReader.setBytes_append [] (List.replicate size 0) (U32.toLeBytes 4)]
    exact U32.ofLeBytes_toLeBytes (by decide) _
  have hroom : ¬ (sub.writePos + (4 + payload.length) > sub.backing.length) := by
    rw [hpos, hlength, hbacking, length_newBuffer h4]
    omega
  simp only [NativeSubscription.appendPayload, if_neg hroom]
  refine ⟨_, rfl, ?_⟩
  have hzero : U32.toLeBytes (sub.writePos + (4 + payload.length)) = U32.toLeBytes 0 := by
    rw [hpos, hlength]
    decide
  rw [hzero, NativeSubscription.writePos]
  have hset : ∀ buffer : Bytes,
      U32.ofLeBytes (ArrayBufferReader.setBytes buffer 0 (U32.toLeBytes 0)) = 0 := by
    intro buffer
    have happ := ArrayBufferReader.setBytes_append [] buffer (U32.toLeBytes 0)
    rw [List.nil_append, List.length_nil, List.nil_append] at happ
    rw [happ]
    exact U32.ofLeBytes_toLeBytes (by decide) _
  exact hset _

theorem not_good_of_long (hdirect : ¬ IsDirect subId)
    (hsub : (start registrations).store.get subId = some sub)
    (hlong : 2 ^ 32 ≤ sub.backing.length) {payload : Bytes}
    (hlength : payload.length = 2 ^ 32 - 8) :
    ¬ (Run.exec step (start registrations) [.batch [(subId, payload)]]).AllGood := by
  intro hgood
  obtain ⟨size, h4, hbacking⟩ := backing_start registrations hsub
  rw [hbacking, length_newBuffer h4] at hlong
  obtain ⟨sub', happend, hzero⟩ := writePos_wraps h4 hbacking hlong hlength
  have hout : (start registrations).store.appendPayload subId payload =
      ((start registrations).store.set subId sub', .written) := by
    simp only [NativeSubscriptionStore.appendPayload, hsub, happend]
  have hstore : ((BatchLoop.start (start registrations).store).event subId payload).store =
      (start registrations).store.set subId sub' := by
    simp only [BatchLoop.event, if_neg hdirect, BatchLoop.start, hout, Finset.notMem_empty,
      if_false]
  have hget : (Run.exec step (start registrations) [.batch [(subId, payload)]]).store.get subId =
      some sub' := by
    show ((BatchLoop.start (start registrations).store).event subId payload).store.get subId = _
    rw [hstore, NativeSubscriptionStore.get_set, if_pos rfl]
  have hcursor := (hgood subId sub' hdirect hget).cursor.1
  omega

/-! ### The result -/

/-- **The buffer stream.**  Every run of batches, reads and resets leaves all buffers good,
exactly when no buffer has `2 ^ 32` bytes or more; a batch wakes a subscription once when it
appended something to its buffer and else not at all, and a refused append changes nothing. -/
theorem native_stream (registrations : List (String × ℕ × Bool)) :
    ((∀ acts, (Run.exec step (start registrations) acts).AllGood) ↔
      ∀ subId sub, ¬ IsDirect subId → (start registrations).store.get subId = some sub →
        sub.backing.length < 2 ^ 32) ∧
    (∀ subId store batch, (applyEventBatch store batch).2.actions.count (.wake subId) =
      if appendedTo subId store batch ≠ [] then 1 else 0) ∧
    ∀ (sub sub' : NativeSubscription) (payload : Bytes),
      sub.appendPayload payload = (sub', false) → sub' = sub := by
  refine ⟨⟨?_, ?_⟩, count_wake, fun sub sub' payload => NativeSubscription.appendPayload_refused⟩
  · intro hgood subId sub hdirect hsub
    by_contra hlong
    exact not_good_of_long registrations hdirect hsub (Nat.not_lt.mp hlong)
      (List.length_replicate (n := 2 ^ 32 - 8) (a := 0)) (hgood _)
  · intro hshort acts subId sub hdirect hsub
    have hkept : (Run.exec step (start registrations) acts).AllKept :=
      Run.Along.exec (fun _ act hs _ => hs.step act) (allKept_start registrations hshort)
        (Run.along_of_mem (P := fun _ _ => True) (fun _ _ _ => trivial) _)
    exact (hkept subId sub hdirect hsub).good

/-- A subscription with a buffer of `2 ^ 32` bytes, and one payload that fills it up to four
bytes. -/
theorem long_buffer_wraps :
    ¬ (Run.exec step (start [("feed", 2 ^ 32, true)])
      [.batch [("feed", List.replicate (2 ^ 32 - 8) 0)]]).AllGood := by
  -- with the sizes as variables, so that nothing evaluates them
  have hlong : ∀ size payload, 2 ^ 32 ≤ size → payload.length = 2 ^ 32 - 8 →
      ¬ (Run.exec step (start [("feed", size, true)]) [.batch [("feed", payload)]]).AllGood := by
    intro size payload hsize hpayload
    have hsub : (start [("feed", size, true)]).store.get "feed" =
        some (NativeSubscription.new size true) := by
      show ((NativeSubscriptionStore.new).set "feed" _).get "feed" = _
      rw [NativeSubscriptionStore.get_set, if_pos rfl]
    refine not_good_of_long [("feed", size, true)] (by decide) hsub ?_ hpayload
    show 2 ^ 32 ≤ (ArrayBufferReader.newBuffer (max size 4)).length
    rw [length_newBuffer (by omega)]
    omega
  exact hlong (2 ^ 32) _ (le_refl _) List.length_replicate

end Stream
end Nipworker
