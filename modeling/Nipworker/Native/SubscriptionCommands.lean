/-
Native subscriptions and the engine's command channel (`crates/native-ffi/src/lib.rs`).

The entries of the subscription store and the commands on the channel are updated in
separate critical sections: a subscriber registers its entry and then sends Subscribe,
holding the lock of the state; the event bridge sends an Unsubscribe for every buffer that
filled up, after it let go of the store; a cleanup removes the entries nobody needs and
sends their Unsubscribes with no lock at all.
-/
import Nipworker.Lib.Run
import Nipworker.Native.SubscriptionStore

namespace Nipworker

open List Option

/-- What `subscription_buffer_size_from_message` reads of a Subscribe message. -/
structure SubscribeMessage where
  subscriptionId : String
  limits : List Int32
  bytesPerEvent : ℕ

/-- `subscription_buffer_size_from_message`. -/
def SubscribeMessage.bufferSize (message : SubscribeMessage) : ℕ :=
  let totalLimit := max
    (message.limits.map fun limit => if 0 < limit then limit.toInt.toNat else 100).sum 1
  let bytesPerEvent := if message.bytesPerEvent = 0 then 3072 else message.bytesPerEvent
  let dataSize := min (totalLimit * bytesPerEvent) (2 ^ 64 - 1)
  let overhead := dataSize / 4
  saturatingAdd (saturatingAdd 4 dataSize) overhead

/-- The commands about a subscription on the engine's channel. -/
inductive Native.EngineCommand
  | subscribe (subId : String)
  | unsubscribe (subId : String)
deriving DecidableEq

def Native.EngineCommand.subId : EngineCommand → String
  | .subscribe subId => subId
  | .unsubscribe subId => subId

/-- The store, the channel and the threads between two critical sections. -/
structure Native where
  store : NativeSubscriptionStore
  channel : List Native.EngineCommand
  /-- The subscriber that holds the lock of the state, between entry and command. -/
  subscribing : Option String
  /-- The Unsubscribes the event bridge has still to send. -/
  bridge : List String
  /-- Cleanups between their two looks at the store. -/
  collected : List (List (String × Bool))
  /-- Cleanups with Unsubscribes to send. -/
  sending : List (List String)

namespace Native

def init : Native where
  store := .new
  channel := []
  subscribing := none
  bridge := []
  collected := []
  sending := []

inductive Act
  /-- `nipworker_subscribe_message` registers the entry. -/
  | register (message : SubscribeMessage)
  /-- It sends the message and gives the lock back. -/
  | sendSubscribe
  | retain (subId : String)
  | release (subId : String)
  /-- The event bridge applies a batch. -/
  | batch (events : List (String × Bytes))
  | bridgeSend
  /-- `nipworker_cleanup_subscriptions` collects what nobody needs. -/
  | cleanupCollect
  /-- It removes what is still not needed. -/
  | cleanupRemove (cleanup : ℕ)
  | cleanupSend (cleanup : ℕ)

variable (iter : IterOrder String)

def collect (store : NativeSubscriptionStore) : List (String × Bool) :=
  (iter.order store.subscriptions.keys).filterMap fun subId =>
    (store.get subId).bind fun sub =>
      if sub.refCount ≤ 0 ∧ subId ≠ "notifications" ∧ subId ≠ "starterpack" then
        some (subId, sub.closeOnCleanup)
      else none

/-- The removal of one collected entry, if it is still not needed. -/
def removeOne (acc : NativeSubscriptionStore × List (String × Bool)) (entry : String × Bool) :
    NativeSubscriptionStore × List (String × Bool) :=
  if (acc.1.get entry.1).any fun sub => sub.refCount ≤ 0 then
    ({ subscriptions := acc.1.subscriptions.erase entry.1 }, acc.2 ++ [entry])
  else acc

/-- The second look of a cleanup: the store, and what it removed. -/
def removeAll (store : NativeSubscriptionStore) (toDelete : List (String × Bool)) :
    NativeSubscriptionStore × List (String × Bool) :=
  toDelete.foldl removeOne (store, [])

/-- A section that needs the lock of the state does not begin while a subscriber holds it. -/
def step (s : Native) : Act → Native
  | .register message =>
    if s.subscribing ≠ none then s
    else
      { s with
        store := s.store.register message.subscriptionId message.bufferSize true
        subscribing := some message.subscriptionId }
  | .sendSubscribe =>
    match s.subscribing with
    | some subId => { s with channel := s.channel ++ [.subscribe subId], subscribing := none }
    | none => s
  | .retain subId =>
    if s.subscribing ≠ none then s else { s with store := (s.store.retain subId).1 }
  | .release subId =>
    if s.subscribing ≠ none then s else { s with store := s.store.release subId }
  | .batch events =>
    -- the bridge takes the next batch when it has sent what the last one called for
    if s.bridge ≠ [] then s
    else
      { s with
        store := (applyEventBatch s.store events).1
        bridge := (applyEventBatch s.store events).2.unsubscribes }
  | .bridgeSend =>
    match s.bridge with
    | subId :: rest => { s with channel := s.channel ++ [.unsubscribe subId], bridge := rest }
    | [] => s
  | .cleanupCollect =>
    if s.subscribing ≠ none then s
    else { s with collected := s.collected ++ [collect iter s.store] }
  | .cleanupRemove cleanup =>
    if s.subscribing ≠ none then s
    else
      match s.collected[cleanup]? with
      | some toDelete =>
        { s with
          store := (removeAll s.store toDelete).1
          collected := s.collected.eraseIdx cleanup
          sending := s.sending ++
            [((removeAll s.store toDelete).2.filter fun entry => entry.2).map Prod.fst] }
      | none => s
  | .cleanupSend cleanup =>
    match s.sending[cleanup]? with
    | some (subId :: rest) =>
      { s with
        channel := s.channel ++ [.unsubscribe subId]
        sending := s.sending.set cleanup rest }
    | _ => s

def lastCommand (channel : List EngineCommand) (subId : String) : Option EngineCommand :=
  (channel.filter fun command => command.subId = subId).getLast?

/-- The subscription is open in the engine, as far as the channel says. -/
def Open (s : Native) (subId : String) : Prop :=
  lastCommand s.channel subId = some (.subscribe subId)

instance (s : Native) (subId : String) : Decidable (s.Open subId) :=
  inferInstanceAs (Decidable (_ = _))

/-- An entry that is used again is open in the engine. -/
def ReuseOpen (s : Native) : Act → Prop
  | .register message =>
    s.subscribing = none → (s.store.get message.subscriptionId).isSome →
      s.Open message.subscriptionId
  | .retain subId => s.subscribing = none → (s.store.get subId).isSome → s.Open subId
  | _ => True

/-! ### The condition -/

/-- A payload for a subscription that is closed when full finds room in its buffer. -/
def HasRoom (store : NativeSubscriptionStore) (subId : String) (bytes : Bytes) : Prop :=
  IsDirect subId ∨ ∀ sub ∈ store.get subId, sub.closeOnCleanup = true →
    sub.writePos + (4 + bytes.length) ≤ sub.backing.length

instance (store : NativeSubscriptionStore) (subId : String) (bytes : Bytes) :
    Decidable (HasRoom store subId bytes) :=
  inferInstanceAs (Decidable (_ ∨ _))

/-- Every payload of a batch does, in the buffers as the ones before it have left them. -/
def AllFit : NativeSubscriptionStore → List (String × Bytes) → Prop
  | _, [] => True
  | store, (subId, bytes) :: rest =>
    HasRoom store subId bytes ∧
      AllFit (if IsDirect subId then store else (store.appendPayload subId bytes).1) rest

instance AllFit.decidable : ∀ store events, Decidable (AllFit store events)
  | _, [] => inferInstanceAs (Decidable True)
  | store, (subId, bytes) :: rest =>
    have := AllFit.decidable
      (if IsDirect subId then store else (store.appendPayload subId bytes).1) rest
    inferInstanceAs (Decidable (_ ∧ _))

/-- No buffer fills up, and no id is registered whose Unsubscribe is still to be sent. -/
def Orderly (s : Native) : Act → Prop
  | .batch events => AllFit s.store events
  | .register message => ∀ unsubscribes ∈ s.sending, message.subscriptionId ∉ unsubscribes
  | _ => True

instance (s : Native) (act : Act) : Decidable (s.Orderly act) :=
  match act with
  | .batch events => inferInstanceAs (Decidable (AllFit s.store events))
  | .register message => inferInstanceAs
      (Decidable (∀ unsubscribes ∈ s.sending, message.subscriptionId ∉ unsubscribes))
  | .sendSubscribe | .retain _ | .release _ | .bridgeSend | .cleanupCollect | .cleanupRemove _
  | .cleanupSend _ => inferInstanceAs (Decidable True)

/-! ### What the steps keep -/

theorem lastCommand_concat (channel : List EngineCommand) (command : EngineCommand)
    (subId : String) :
    lastCommand (channel ++ [command]) subId =
      if command.subId = subId then some command else lastCommand channel subId := by
  rw [lastCommand, filter_append]
  by_cases h : command.subId = subId
  · rw [if_pos h, filter_cons_of_pos (by simpa using h), filter_nil,
      List.getLast?_concat]
  · rw [if_neg h, filter_cons_of_neg (by simpa using h), filter_nil, append_nil,
      lastCommand]

theorem events_allFit (events : List (String × Bytes)) (loop : BatchLoop)
    (hfit : AllFit loop.store events) :
    (loop.events events).outcome.unsubscribes = loop.outcome.unsubscribes ∧
      ∀ subId, ((loop.events events).store.get subId).isSome = (loop.store.get subId).isSome := by
  induction events generalizing loop with
  | nil => exact ⟨rfl, fun _ => rfl⟩
  | cons event rest ih =>
    obtain ⟨id, bytes⟩ := event
    obtain ⟨hroom, hrest⟩ := hfit
    show ((loop.event id bytes).events rest).outcome.unsubscribes = _ ∧
      ∀ subId, (((loop.event id bytes).events rest).store.get subId).isSome = _
    -- one event: nothing to unsubscribe, the same entries, and the store of the condition
    have hone : (loop.event id bytes).outcome.unsubscribes = loop.outcome.unsubscribes ∧
        (loop.event id bytes).store =
          (if IsDirect id then loop.store else (loop.store.appendPayload id bytes).1) ∧
        ∀ subId, ((loop.event id bytes).store.get subId).isSome =
          (loop.store.get subId).isSome := by
      by_cases hid : IsDirect id
      · rw [BatchLoop.event, if_pos hid, if_pos hid]
        exact ⟨rfl, rfl, fun _ => rfl⟩
      rw [if_neg hid]
      cases hget : loop.store.get id with
      | none =>
        have hout : loop.store.appendPayload id bytes = (loop.store, .missing) := by
          simp only [NativeSubscriptionStore.appendPayload, hget]
        simp only [BatchLoop.event, if_neg hid, hout, implies_true, and_self]
      | some sub =>
        cases happend : sub.appendPayload bytes with
        | mk sub' ok =>
        cases ok with
        | true =>
          have hout : loop.store.appendPayload id bytes = (loop.store.set id sub', .written) := by
            simp only [NativeSubscriptionStore.appendPayload, hget, happend]
          have hkeys : ∀ subId, ((loop.store.set id sub').get subId).isSome =
              (loop.store.get subId).isSome := by
            intro subId
            rw [NativeSubscriptionStore.get_set]
            split
            next h => rw [h, hget, isSome_some, isSome_some]
            · rfl
          simp only [BatchLoop.event, if_neg hid, hout]
          split
          · exact ⟨rfl, rfl, hkeys⟩
          · exact ⟨rfl, rfl, hkeys⟩
        | false =>
          have hsame := NativeSubscription.appendPayload_refused happend
          subst hsame
          have hout : loop.store.appendPayload id bytes =
              (loop.store, .full sub'.closeOnCleanup) := by
            simp only [NativeSubscriptionStore.appendPayload, hget, happend]
          -- a buffer that is closed when full has room
          have hopen : sub'.closeOnCleanup = false := by
            by_contra hclose
            have hle := hroom.resolve_left hid sub' hget (Bool.not_eq_false _ ▸ hclose)
            rw [NativeSubscription.appendPayload, if_neg (by omega)] at happend
            exact absurd (Prod.mk.inj happend).2 (by decide)
          simp only [BatchLoop.event, if_neg hid, hout, hopen, Bool.false_eq_true, false_and,
            if_false, implies_true, and_self]
    obtain ⟨hunsubscribes, hstore, hkeys⟩ := hone
    have hnext := ih (loop.event id bytes) (hstore ▸ hrest)
    exact ⟨hnext.1.trans hunsubscribes, fun subId => (hnext.2 subId).trans (hkeys subId)⟩

theorem removeAll_spec (store : NativeSubscriptionStore) (toDelete : List (String × Bool)) :
    (∀ subId, (store.get subId) = none → (removeAll store toDelete).1.get subId = none) ∧
      ∀ entry ∈ (removeAll store toDelete).2, (removeAll store toDelete).1.get entry.1 = none := by
  have hloop : ∀ (l : List (String × Bool)) (acc : NativeSubscriptionStore × List (String × Bool)),
      (∀ subId, store.get subId = none → acc.1.get subId = none) →
      (∀ entry ∈ acc.2, acc.1.get entry.1 = none) →
      (∀ subId, store.get subId = none → (l.foldl removeOne acc).1.get subId = none) ∧
        ∀ entry ∈ (l.foldl removeOne acc).2, (l.foldl removeOne acc).1.get entry.1 = none := by
    intro l
    induction l with
    | nil => exact fun acc hold hgone => ⟨hold, hgone⟩
    | cons entry rest ih =>
      intro acc hold hgone
      rw [foldl_cons, removeOne]
      split
      · have herase : ∀ subId, acc.1.get subId = none ∨ subId = entry.1 →
            NativeSubscriptionStore.get
              { subscriptions := acc.1.subscriptions.erase entry.1 } subId = none := by
          intro subId h
          rw [NativeSubscriptionStore.get, Map.lookup_erase_ite]
          split
          · rfl
          next hne => exact h.resolve_right hne
        refine ih _ (fun subId h => herase subId (.inl (hold subId h))) ?_
        intro e he
        rcases List.mem_append.mp he with hmem | hmem
        · exact herase e.1 (.inl (hgone e hmem))
        · exact herase e.1 (.inr (by rw [List.mem_singleton.mp hmem]))
      · exact ih acc hold hgone
  refine hloop toDelete (store, []) (fun _ h => h) ?_
  intro entry h
  exact absurd h not_mem_nil

/-- An entry is open, or its subscriber is about to open it, and no Unsubscribe for it is
under way. -/
structure Consistent (s : Native) : Prop where
  bridge : s.bridge = []
  isOpen : ∀ subId, (s.store.get subId).isSome → s.subscribing = some subId ∨ s.Open subId
  unsent : ∀ subId, (s.store.get subId).isSome →
    ∀ unsubscribes ∈ s.sending, subId ∉ unsubscribes

theorem consistent_init : Consistent init where
  bridge := rfl
  isOpen := fun subId h => by
    simp only [init, NativeSubscriptionStore.get, NativeSubscriptionStore.new, AList.lookup_empty,
      isSome_none, Bool.false_eq_true] at h
  unsent := fun _ _ unsubscribes h => absurd h not_mem_nil

theorem Consistent.sameKeys {s : Native} (hs : s.Consistent) {store : NativeSubscriptionStore}
    (hkeys : ∀ subId, (store.get subId).isSome = true → (s.store.get subId).isSome = true) :
    Consistent { s with store } where
  bridge := hs.bridge
  isOpen := fun subId h => hs.isOpen subId (hkeys subId h)
  unsent := fun subId h => hs.unsent subId (hkeys subId h)

theorem Consistent.sendUnsubscribe {s : Native} (hs : s.Consistent) {subId : String}
    (hgone : s.store.get subId = none) :
    Consistent { s with channel := s.channel ++ [.unsubscribe subId] } where
  bridge := hs.bridge
  isOpen := fun id h => by
    rcases hs.isOpen id h with hsub | hopen
    · exact .inl hsub
    · refine .inr ?_
      have hne : subId ≠ id := by
        rintro rfl
        rw [hgone] at h
        contradiction
      show lastCommand (s.channel ++ [.unsubscribe subId]) id = _
      rw [lastCommand_concat, EngineCommand.subId, if_neg hne]
      exact hopen
  unsent := hs.unsent

theorem Consistent.step {s : Native} (hs : s.Consistent) (act : Act) (hact : s.Orderly act) :
    (Native.step iter s act).Consistent := by
  cases act with
  | register message =>
    rw [Native.step]
    split
    · exact hs
    next hlock =>
      have hold : ∀ subId, subId ≠ message.subscriptionId →
          ((s.store.register message.subscriptionId message.bufferSize true).get subId).isSome →
            (s.store.get subId).isSome := by
        intro subId hid h
        rw [NativeSubscriptionStore.register] at h
        split at h
        · rwa [NativeSubscriptionStore.get_set, if_neg hid] at h
        · rwa [NativeSubscriptionStore.get_set, if_neg hid] at h
      refine ⟨hs.bridge, ?_, ?_⟩
      · intro subId h
        by_cases hid : subId = message.subscriptionId
        · exact .inl (congrArg some hid.symm)
        · refine .inr ((hs.isOpen subId (hold subId hid h)).resolve_left fun heq => ?_)
          rw [not_not.mp hlock] at heq
          contradiction
      · intro subId h unsubscribes hmem
        by_cases hid : subId = message.subscriptionId
        · rw [hid]
          exact hact unsubscribes hmem
        · exact hs.unsent subId (hold subId hid h) unsubscribes hmem
  | sendSubscribe =>
    rw [Native.step]
    split
    next subId hsub =>
      refine ⟨hs.bridge, fun id h => .inr ?_, hs.unsent⟩
      show lastCommand (s.channel ++ [.subscribe subId]) id = _
      rw [lastCommand_concat, EngineCommand.subId]
      by_cases hid : subId = id
      · rw [if_pos hid, hid]
      · rw [if_neg hid]
        refine (hs.isOpen id h).resolve_left fun heq => hid ?_
        exact some.inj (hsub.symm.trans heq)
    · exact hs
  | retain subId =>
    rw [Native.step]
    split
    · exact hs
    · refine hs.sameKeys fun id h => ?_
      rw [NativeSubscriptionStore.retain] at h
      split at h
      next existing hexisting =>
        rw [NativeSubscriptionStore.get_set] at h
        split at h
        next hid => rw [hid, hexisting, isSome_some]
        · exact h
      · exact h
  | release subId =>
    rw [Native.step]
    split
    · exact hs
    · refine hs.sameKeys fun id h => ?_
      rw [NativeSubscriptionStore.release] at h
      split at h
      next existing hexisting =>
        rw [NativeSubscriptionStore.get_set] at h
        split at h
        next hid => rw [hid, hexisting, isSome_some]
        · exact h
      · exact h
  | batch events =>
    obtain ⟨hnone, hkeys⟩ := events_allFit events (BatchLoop.start s.store) hact
    rw [Native.step]
    split
    · exact hs
    · have hsame : Consistent { s with store := (applyEventBatch s.store events).1 } :=
        hs.sameKeys fun id h => (hkeys id).symm.trans h
      exact ⟨hnone, hsame.isOpen, hsame.unsent⟩
  | bridgeSend =>
    simp only [Native.step, hs.bridge]
    exact hs
  | cleanupCollect =>
    rw [Native.step]
    split
    · exact hs
    · exact ⟨hs.bridge, hs.isOpen, hs.unsent⟩
  | cleanupRemove cleanup =>
    rw [Native.step]
    split
    · exact hs
    split
    next toDelete _ =>
      obtain ⟨hold, hgone⟩ := removeAll_spec s.store toDelete
      have hkeys : ∀ subId, ((removeAll s.store toDelete).1.get subId).isSome = true →
          (s.store.get subId).isSome = true := by
        intro subId h
        by_contra hnone
        rw [Bool.not_eq_true, isSome_eq_false_iff, isNone_iff_eq_none] at hnone
        rw [hold subId hnone] at h
        contradiction
      have hsame := hs.sameKeys hkeys
      refine ⟨hs.bridge, hsame.isOpen, ?_⟩
      intro subId h unsubscribes hmem hin
      rcases List.mem_append.mp hmem with hbefore | hnew
      · exact hsame.unsent subId h unsubscribes hbefore hin
      · -- what this cleanup is about to unsubscribe has no entry
        rw [List.mem_singleton.mp hnew] at hin
        obtain ⟨entry, hentry, rfl⟩ := List.mem_map.mp hin
        rw [hgone entry (mem_of_mem_filter hentry)] at h
        contradiction
    · exact hs
  | cleanupSend cleanup =>
    rw [Native.step]
    split
    next subId rest hget =>
      have hmem : subId :: rest ∈ s.sending := mem_of_getElem? hget
      have hgone : s.store.get subId = none := by
        by_contra hsome
        have hentry : (s.store.get subId).isSome := Option.isSome_iff_ne_none.mpr hsome
        exact hs.unsent subId hentry _ hmem mem_cons_self
      have hsent := hs.sendUnsubscribe hgone
      refine ⟨hs.bridge, hsent.isOpen, ?_⟩
      intro id h unsubscribes hin
      rcases mem_or_eq_of_mem_set hin with hold | hrest
      · exact hs.unsent id h unsubscribes hold
      · rw [hrest]
        exact fun hid => hs.unsent id h _ hmem (mem_cons_of_mem _ hid)
    · exact hs

/-- **An entry used again is open.**  In every run in which no buffer fills up and no id is
registered while an Unsubscribe for it is still to be sent. -/
theorem reuse_open (acts : List Act) (h : Run.Along (step iter) Orderly init acts) :
    Run.Along (step iter) ReuseOpen init acts := by
  have hkeep : ∀ s act, Consistent s → Orderly s act → Consistent (step iter s act) :=
    fun s act hs hact => hs.step iter act hact
  refine Run.Along.imp hkeep ?_ consistent_init h
  intro s act hs _
  have hreuse : ∀ subId, s.subscribing = none → (s.store.get subId).isSome → s.Open subId := by
    intro subId hfree hentry
    refine (hs.isOpen subId hentry).resolve_left fun heq => ?_
    rw [hfree] at heq
    contradiction
  cases act with
  | register message => exact hreuse message.subscriptionId
  | retain subId => exact hreuse subId
  | sendSubscribe => trivial
  | release subId => trivial
  | batch events => trivial
  | bridgeSend => trivial
  | cleanupCollect => trivial
  | cleanupRemove cleanup => trivial
  | cleanupSend cleanup => trivial

/-- A subscription to one event of eight bytes: a buffer of fourteen bytes. -/
def oneEvent : SubscribeMessage := { subscriptionId := "feed", limits := [1], bytesPerEvent := 8 }

/-- Two subscribers, one after the other, with a payload in between, and a cleanup. -/
def orderlyCalls : List Act :=
  [.register oneEvent, .sendSubscribe, .batch [("feed", [1, 2, 3])], .retain "feed",
    .release "feed", .release "feed", .cleanupCollect, .cleanupRemove 0, .cleanupSend 0,
    .register oneEvent, .sendSubscribe, .retain "feed"]

theorem reuse_open_sample :
    Run.Along (step (IterOrder.entries String)) ReuseOpen init orderlyCalls :=
  reuse_open (IterOrder.entries String) orderlyCalls (by decide)

/-- A payload of eleven bytes does not fit, and a second subscriber takes the entry that the
engine was told to close. -/
theorem full_buffer_reused :
    ¬ Run.Along (step (IterOrder.entries String)) ReuseOpen init
      [.register oneEvent, .sendSubscribe, .batch [("feed", List.replicate 11 0)], .bridgeSend,
        .retain "feed"] := by
  intro h
  have hretain := h.2.2.2.2.1 (by decide) (by decide)
  exact absurd hretain (by decide)

end Native
end Nipworker
