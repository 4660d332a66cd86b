/-
The event database (`NostrDB` in `storage/db/index.rs`).

A `NostrDB` is an index over a sharded storage.  An event is stored first, in
the ring of its kind, and then indexed under the offset it got; nothing is
removed from the index when a ring evicts the event, so a record may point to
an offset that is gone.

* `NostrDB.addWorkerMessageBytes` and its siblings — the four ways to add an
  event;
-/
import Nipworker.Storage.IndexInvariant
import Nipworker.Storage.Message
import Nipworker.Storage.ShardedStorage

namespace Nipworker

open List

/-- The index, and the bytes it points into. -/
structure NostrDB where
  index : IndexState
  storage : ShardedStorage
  isInitialized : Bool

/-- Writing a `NostrEvent` into a fresh buffer, `FlatBufferBuilder::finish`. -/
structure FlatBufferBuilder where
  nostrEvent : NostrEvent → Bytes

namespace NostrDB

def new (maxBufferSize : ℕ) : NostrDB :=
  { index := IndexState.empty, storage := ShardedStorage.newDefault maxBufferSize,
    isInitialized := false }

/-! ### Rebuilding the index -/

def indexMessage (st : IndexState) (msg : Message) (offset : ℕ) : IndexState :=
  match msg with
  | .parsedEvent ev => indexParsedEvent st ev offset
  | .nostrEvent ev => indexNostrEvent st ev offset
  | .other => st

/-- The sets that are allocated in advance: for every kind, and for every
pubkey with more than five events. -/
def preallocate (ix : DatabaseIndexes) (evs : List Event) : DatabaseIndexes :=
  { ix with
    eventsByPubkey := (evs.map Event.pubkey).dedup.foldl
      (fun m pubkey => if (evs.filter fun ev => ev.pubkey = pubkey).length > 5 then
        AList.insert pubkey ∅ m else m) ix.eventsByPubkey
    eventsByKind := (evs.map Event.kind).dedup.foldl
      (fun m kind => AList.insert kind ∅ m) ix.eventsByKind }

/-- Read the events at the offsets, leave out those that cannot be read, and index the `i`-th
that is left under the `i`-th offset. -/
def buildIndexesFromEvents (fb : FlatBuffers) (db : NostrDB) (offsets : List ℕ) : NostrDB :=
  let rawEvents := offsets.filterMap fun offset =>
    match db.storage.getEvent offset with
    | .ok (some bytes) => some bytes
    | _ => none
  let index : IndexState :=
    { db.index with
      indexes := preallocate db.index.indexes (rawEvents.filterMap fb.storedEvent) }
  { db with
    index := (rawEvents.zip offsets).foldl
      (fun st entry =>
        match fb.storedMessage entry.1 with
        | some msg => indexMessage st msg entry.2
        | none => st) index }

/-- The index derived anew from what is stored. -/
def rebuildIndexesFromStorage (fb : FlatBuffers) (db : NostrDB) : NostrDB :=
  let db := { db with index := IndexState.empty }
  let events := db.storage.loadEvents
  if events = [] then db else db.buildIndexesFromEvents fb events

/-- `NostrDB::initialize`. -/
def initializeDb (fb : FlatBuffers) (db : NostrDB) : NostrDB :=
  if db.isInitialized then db
  else
    let db := { db with index := IndexState.empty, storage := db.storage.initializeStorage }
    let events := db.storage.loadEvents
    let db := if events = [] then db else db.buildIndexesFromEvents fb events
    { db with isInitialized := true }

/-! ### Adding events -/

/-- Store the bytes of an event and index it under the offset they got. -/
def storeAndIndex (db : NostrDB) (ev : StoredEvent) (bytes : Bytes) :
    Except DatabaseError NostrDB :=
  match db.storage.addEventForKind ev.event.kind.toNat bytes with
  | .error e => .error e
  | .ok (storage, offset) =>
    .ok { db with storage := storage, index := indexStoredEvent db.index ev offset }

/-- Store a `WorkerMessage` that holds an event, or an event table alone. Other messages are
skipped. -/
def addWorkerMessageBytes (fb : FlatBuffers) (db : NostrDB) (bytes : Bytes) :
    Except DatabaseError NostrDB :=
  match fb.workerMessage bytes with
  | some (.parsedEvent ev) => db.storeAndIndex (.parsed ev) bytes
  | some (.nostrEvent ev) => db.storeAndIndex (.nostr ev) bytes
  | some .other => .ok db
  | none =>
    match fb.parsedEvent bytes with
    | some ev => db.storeAndIndex (.parsed ev) bytes
    | none =>
      match fb.nostrEvent bytes with
      | some ev => db.storeAndIndex (.nostr ev) bytes
      | none =>
        .error (.storageError
          "FB decode error: expected WorkerMessage, ParsedEvent or NostrEvent")

def holdsEvent (db : NostrDB) (id : String) : Bool :=
  (db.index.indexes.record id).any fun record => db.storage.containsOffset record.offset

/-- The common body of `add_parsed_event_with_bytes` and
`add_nostr_event_with_bytes`: an event that is there and readable is not stored
again. -/
def addEventWithBytes (db : NostrDB) (ev : StoredEvent) (bytes : Bytes) :
    Except DatabaseError NostrDB :=
  if db.holdsEvent ev.event.id then .ok db else db.storeAndIndex ev bytes

def addParsedEventWithBytes (db : NostrDB) (ev : ParsedEvent) (bytes : Bytes) :
    Except DatabaseError NostrDB :=
  db.addEventWithBytes (.parsed ev) bytes

def addNostrEventWithBytes (db : NostrDB) (ev : NostrEvent) (bytes : Bytes) :
    Except DatabaseError NostrDB :=
  db.addEventWithBytes (.nostr ev) bytes

/-- The event is written into a buffer of its own, without the tags that have no vector. -/
def addEventFromFb (builder : FlatBufferBuilder) (db : NostrDB) (ev : NostrEvent) :
    Except DatabaseError NostrDB :=
  db.storeAndIndex (.nostr ev)
    (builder.nostrEvent { ev with tags := ev.tags.filter fun tag => tag.items.isSome })

/-- A read of `NostrDB::get_event`. -/
def getEvent (db : NostrDB) (id : String) : Option Bytes :=
  match db.index.indexes.record id with
  | none => none
  | some record =>
    match db.storage.getEvent record.offset with
    | .ok (some bytes) => some bytes
    | _ => none

/-! ### Index and storage together -/

/-- The index represents the events `evs`, the rings are windows on the logs
`history`, and each record points to a place in them where its event is stored
as `stored` says. -/
structure Tracks (db : NostrDB) (history : ShardId → List Bytes) (evs : List Event)
    (stored : String → Bytes → Prop) : Prop where
  holds : db.storage.Holds history
  represents : db.index.indexes.Represents evs
  placed : ∀ id record, db.index.indexes.record id = some record →
    ∃ g i bytes, (history g)[i]? = some bytes ∧
      record.offset = packOffset g (framePos (history g) i) ∧ stored id bytes

theorem Tracks.getEvent {db : NostrDB} {history : ShardId → List Bytes} {evs : List Event}
    {stored : String → Bytes → Prop} (h : db.Tracks history evs stored) {id : String}
    {record : EventRecord} (hrec : db.index.indexes.record id = some record)
    (hlive : db.storage.containsOffset record.offset = true) :
    ∃ bytes, db.storage.getEvent record.offset = .ok (some bytes) ∧ stored id bytes := by
  obtain ⟨g, i, bytes, hget, hoff, hstored⟩ := h.placed id record hrec
  rw [hoff] at hlive ⊢
  exact ⟨bytes, h.holds.getEvent hget hlive, hstored⟩

theorem applyDeletions_indexes (st : IndexState) (ev : Event) :
    (applyDeletions st ev).indexes = st.indexes := by
  unfold applyDeletions
  split <;> rfl

theorem indexEvent_indexes (st : IndexState) (ev : Event) (offset : ℕ) :
    (indexEvent st ev offset).indexes = (st.indexes.indexFields ev offset).1 := by
  unfold indexEvent
  dsimp only
  split <;> rfl

theorem Tracks.applyDeletions {db : NostrDB} {history : ShardId → List Bytes}
    {evs : List Event} {stored : String → Bytes → Prop} (h : db.Tracks history evs stored)
    (ev : Event) :
    Tracks { db with index := applyDeletions db.index ev } history evs stored := by
  refine ⟨h.holds, ?_, ?_⟩
  · show (Nipworker.applyDeletions db.index ev).indexes.Represents evs
    rw [applyDeletions_indexes]
    exact h.represents
  · show ∀ id record, (Nipworker.applyDeletions db.index ev).indexes.record id = some record → _
    rw [applyDeletions_indexes]
    exact h.placed

/-- **Adding an event** keeps index and storage together: the record of the
event points to its new place, and the other records to where they pointed. -/
theorem Tracks.storeAndIndex {db : NostrDB} {history : ShardId → List Bytes} {evs : List Event}
    {stored : String → Bytes → Prop} (h : db.Tracks history evs stored)
    (stored' : String → Bytes → Prop) {ev : StoredEvent} (hdet : DeterminedIds (ev.event :: evs)) {bytes : Bytes}
    (hne : bytes ≠ []) (hnew : stored' ev.event.id bytes)
    (hold : ∀ id bytes, id ≠ ev.event.id → stored id bytes → stored' id bytes) :
    (∃ e, db.storeAndIndex ev bytes = .error e) ∨
      ∃ db', db.storeAndIndex ev bytes = .ok db' ∧
        db'.Tracks (Function.update history (ShardId.fromKind ev.event.kind.toNat)
          (history (ShardId.fromKind ev.event.kind.toNat) ++ [bytes])) (ev.event :: evs)
          stored' := by
  unfold NostrDB.storeAndIndex
  rcases h.holds.addEventForKind ev.event.kind.toNat hne with ⟨e, he⟩ | ⟨s', hs', hholds, -⟩
  · left
    rw [he]
    exact ⟨e, rfl⟩
  · right
    rw [hs']
    generalize ShardId.fromKind ev.event.kind.toNat = g at hs' hholds ⊢
    refine ⟨_, rfl, hholds, ?_, ?_⟩
    · show (indexStoredEvent db.index ev _).indexes.Represents _
      rw [indexStoredEvent_eq, indexEvent_indexes]
      exact h.represents.indexFields hdet _
    · intro id record hrec
      rw [indexStoredEvent_eq, indexEvent_indexes, DatabaseIndexes.indexFields_record] at hrec
      by_cases hid : id = ev.event.id
      · -- the new record: the end of the log of its shard
        rw [if_pos hid] at hrec
        cases hrec
        refine ⟨g, (history g).length, bytes, ?_, ?_, hid ▸ hnew⟩
        · rw [Function.update_self, List.getElem?_concat_length]
        · rw [Function.update_self, framePos_append (le_refl _)]
      · -- an old record: appending moved nothing
        rw [if_neg hid] at hrec
        obtain ⟨g', i, bytes', hget, hoff, hst⟩ := h.placed id record hrec
        refine ⟨g', i, bytes', ?_, ?_, hold id bytes' hid hst⟩
        all_goals
          by_cases hg : g' = g
          · subst hg
            have hlt := (List.getElem?_eq_some_iff.mp hget).1
            rw [Function.update_self]
            first
              | rw [List.getElem?_append_left hlt, hget]
              | rw [framePos_append hlt.le, hoff]
          · rw [Function.update_of_ne hg]
            assumption

end NostrDB

/-! ### Runs -/

inductive DbCall
  | addWorkerMessageBytes (bytes : Bytes)
  | addParsedEventWithBytes (ev : ParsedEvent) (bytes : Bytes)
  | addNostrEventWithBytes (ev : NostrEvent) (bytes : Bytes)
  | addEventFromFb (ev : NostrEvent)
  | applyDeletionsFromBytes (bytes : Bytes)

section Runs

variable (fb : FlatBuffers) (builder : FlatBufferBuilder)

/-- The state after a call; one that fails changes nothing. -/
def NostrDB.call (db : NostrDB) (c : DbCall) : NostrDB :=
  let kept : Except DatabaseError NostrDB → NostrDB
    | .ok db' => db'
    | .error _ => db
  match c with
  | .addWorkerMessageBytes bytes => kept (db.addWorkerMessageBytes fb bytes)
  | .addParsedEventWithBytes ev bytes => kept (db.addParsedEventWithBytes ev bytes)
  | .addNostrEventWithBytes ev bytes => kept (db.addNostrEventWithBytes ev bytes)
  | .addEventFromFb ev => kept (db.addEventFromFb builder ev)
  | .applyDeletionsFromBytes bytes =>
    { db with index := (applyDeletionsFromBytes fb db.index bytes).1 }

def DbCall.event : DbCall → Option Event
  | .addWorkerMessageBytes bytes => fb.storedEvent bytes
  | .addParsedEventWithBytes ev _ => some ev.event
  | .addNostrEventWithBytes ev _ => some ev.event
  | .addEventFromFb ev => some ev.event
  | .applyDeletionsFromBytes _ => none

/-- An event that comes with its bytes was read from them. -/
def DbCall.Sound : DbCall → Prop
  | .addParsedEventWithBytes ev bytes => fb.workerMessage bytes = some (.parsedEvent ev)
  | .addNostrEventWithBytes ev bytes => fb.workerMessage bytes = some (.nostrEvent ev)
  | _ => True

def Message.storedEvent : Message → Option StoredEvent
  | .parsedEvent ev => some (.parsed ev)
  | .nostrEvent ev => some (.nostr ev)
  | .other => none

/-- What a call tries to store: nothing when the event is there already. -/
def DbCall.adds (db : NostrDB) : DbCall → Option (StoredEvent × Bytes)
  | .addWorkerMessageBytes bytes =>
    ((fb.storedMessage bytes).bind Message.storedEvent).map (·, bytes)
  | .addParsedEventWithBytes ev bytes =>
    if db.holdsEvent ev.id then none else some (.parsed ev, bytes)
  | .addNostrEventWithBytes ev bytes =>
    if db.holdsEvent ev.id then none else some (.nostr ev, bytes)
  | .addEventFromFb ev =>
    some (.nostr ev,
      builder.nostrEvent { ev with tags := ev.tags.filter fun tag => tag.items.isSome })
  | .applyDeletionsFromBytes _ => none

def DbCall.stores (db : NostrDB) (c : DbCall) : Option (Event × Bytes) :=
  match c.adds fb builder db with
  | none => none
  | some (ev, bytes) =>
    match db.storeAndIndex ev bytes with
    | .ok _ => some (ev.event, bytes)
    | .error _ => none

/-- A database with the log of what was stored in it, newest first. -/
def NostrDB.logCall (s : NostrDB × List (Event × Bytes)) (c : DbCall) :
    NostrDB × List (Event × Bytes) :=
  (s.1.call fb builder c, (c.stores fb builder s.1).toList ++ s.2)

def NostrDB.runCalls (db : NostrDB) (calls : List DbCall) : NostrDB × List (Event × Bytes) :=
  calls.foldl (NostrDB.logCall fb builder) (db, [])

end Runs

def lastStored (log : List (Event × Bytes)) (id : String) : Option Bytes :=
  (log.find? fun entry => entry.1.id = id).map Prod.snd

theorem lastStored_cons (ev : Event) (bytes : Bytes) (log : List (Event × Bytes)) (id : String) :
    lastStored ((ev, bytes) :: log) id = if ev.id = id then some bytes else lastStored log id := by
  unfold lastStored
  rw [List.find?_cons]
  by_cases h : ev.id = id <;> simp [h]

/-- Empty bytes are no message. -/
structure FlatBuffers.RejectsEmpty (fb : FlatBuffers) : Prop where
  workerMessage : fb.workerMessage [] = none
  parsedEvent : fb.parsedEvent [] = none
  nostrEvent : fb.nostrEvent [] = none

namespace NostrDB

variable {fb : FlatBuffers} {builder : FlatBufferBuilder}

theorem addWorkerMessageBytes_eq (db : NostrDB) (bytes : Bytes) :
    db.addWorkerMessageBytes fb bytes
      = match fb.storedMessage bytes with
        | some msg =>
          (match msg.storedEvent with
            | some ev => db.storeAndIndex ev bytes
            | none => .ok db)
        | none => .error (.storageError
            "FB decode error: expected WorkerMessage, ParsedEvent or NostrEvent") := by
  unfold addWorkerMessageBytes FlatBuffers.storedMessage
  rcases fb.workerMessage bytes with _ | ev | ev | _
  · rcases fb.parsedEvent bytes with _ | ev
    · rcases fb.nostrEvent bytes with _ | ev <;> rfl
    · rfl
  all_goals rfl

theorem call_eq (db : NostrDB) (c : DbCall) :
    db.call fb builder c
      = match c.adds fb builder db with
        | some (ev, bytes) =>
          (match db.storeAndIndex ev bytes with
            | .ok db' => db'
            | .error _ => db)
        | none =>
          match c with
          | .applyDeletionsFromBytes bytes =>
            { db with index := (applyDeletionsFromBytes fb db.index bytes).1 }
          | _ => db := by
  cases c with
  | addWorkerMessageBytes bytes =>
    rw [call, addWorkerMessageBytes_eq, DbCall.adds]
    rcases fb.storedMessage bytes with _ | ev | ev | _ <;> rfl
  | addParsedEventWithBytes ev bytes =>
    have hid : (StoredEvent.parsed ev).event.id = ev.id := rfl
    rw [call, addParsedEventWithBytes, addEventWithBytes, DbCall.adds, hid]
    by_cases h : db.holdsEvent ev.id
    · rw [if_pos h, if_pos h]
    · rw [if_neg h, if_neg h]
  | addNostrEventWithBytes ev bytes =>
    have hid : (StoredEvent.nostr ev).event.id = ev.id := rfl
    rw [call, addNostrEventWithBytes, addEventWithBytes, DbCall.adds, hid]
    by_cases h : db.holdsEvent ev.id
    · rw [if_pos h, if_pos h]
    · rw [if_neg h, if_neg h]
  | addEventFromFb ev => rfl
  | applyDeletionsFromBytes bytes => rfl

variable {db : NostrDB}

theorem adds_spec (hfb : fb.RejectsEmpty) (hbuilder : ∀ ev, builder.nostrEvent ev ≠ [])
    {c : DbCall} (hsound : c.Sound fb) {ev : StoredEvent} {bytes : Bytes}
    (h : c.adds fb builder db = some (ev, bytes)) : c.event fb = some ev.event ∧ bytes ≠ [] := by
  cases c with
  | addWorkerMessageBytes bytes' =>
    rw [DbCall.adds, Option.map_eq_some_iff] at h
    obtain ⟨ev', hev', heq⟩ := h
    cases heq
    rw [DbCall.event, FlatBuffers.storedEvent]
    constructor
    · rcases hmsg : fb.storedMessage bytes with _ | p | n | _ <;> rw [hmsg] at hev' <;> cases hev'
        <;> rfl
    · rintro rfl
      rw [FlatBuffers.storedMessage, hfb.workerMessage, hfb.parsedEvent, hfb.nostrEvent] at hev'
      cases hev'
  | addParsedEventWithBytes p bytes' =>
    rw [DbCall.adds] at h
    split at h
    · cases h
    · cases h
      refine ⟨rfl, ?_⟩
      rintro rfl
      rw [DbCall.Sound, hfb.workerMessage] at hsound
      cases hsound
  | addNostrEventWithBytes n bytes' =>
    rw [DbCall.adds] at h
    split at h
    · cases h
    · cases h
      refine ⟨rfl, ?_⟩
      rintro rfl
      rw [DbCall.Sound, hfb.workerMessage] at hsound
      cases hsound
  | addEventFromFb n =>
    cases h
    exact ⟨rfl, hbuilder _⟩
  | applyDeletionsFromBytes bytes' => cases h

/-- The database points to the last bytes that were added for an id. -/
def TrackedBy (db : NostrDB) (log : List (Event × Bytes)) : Prop :=
  ∃ history, db.Tracks history (log.map Prod.fst) fun id bytes => lastStored log id = some bytes

/-- **One call** keeps the state tracked by its log. -/
theorem TrackedBy.call (hfb : fb.RejectsEmpty) (hbuilder : ∀ ev, builder.nostrEvent ev ≠ [])
    {log : List (Event × Bytes)} (h : db.TrackedBy log) {c : DbCall} (hsound : c.Sound fb)
    (hdet : DeterminedIds ((c.event fb).toList ++ log.map Prod.fst)) :
    (db.call fb builder c).TrackedBy ((c.stores fb builder db).toList ++ log) := by
  obtain ⟨history, h⟩ := h
  rw [call_eq, DbCall.stores]
  rcases hadds : c.adds fb builder db with _ | ⟨ev, bytes⟩
  · -- nothing is stored
    dsimp only
    rw [Option.toList_none, nil_append]
    cases c
    case applyDeletionsFromBytes bytes =>
      dsimp only
      rw [applyDeletionsFromBytes_fst]
      rcases fb.wrappedEvent bytes with _ | ev
      · exact ⟨history, h⟩
      · exact ⟨history, h.applyDeletions ev⟩
    all_goals exact ⟨history, h⟩
  · obtain ⟨hev, hne⟩ := adds_spec hfb hbuilder hsound hadds
    rw [hev, Option.toList_some, singleton_append] at hdet
    have hstep := h.storeAndIndex
      (fun id bytes' => lastStored ((ev.event, bytes) :: log) id = some bytes') hdet hne
      (by rw [lastStored_cons, if_pos rfl])
      (fun id bytes' hid hst => by rw [lastStored_cons, if_neg (Ne.symm hid)]; exact hst)
    dsimp only
    rcases hstep with ⟨e, he⟩ | ⟨db', hdb', htracks⟩
    · rw [he]
      exact ⟨history, h⟩
    · rw [hdb']
      exact ⟨_, htracks⟩

theorem stores_event (hfb : fb.RejectsEmpty) (hbuilder : ∀ ev, builder.nostrEvent ev ≠ [])
    {c : DbCall} (hsound : c.Sound fb) {entry : Event × Bytes}
    (h : c.stores fb builder db = some entry) : c.event fb = some entry.1 := by
  unfold DbCall.stores at h
  rcases hadds : c.adds fb builder db with _ | ⟨ev, bytes⟩ <;> rw [hadds] at h
  · cases h
  · dsimp only at h
    split at h
    · cases h
      exact (adds_spec hfb hbuilder hsound hadds).1
    · cases h

theorem mem_log (hfb : fb.RejectsEmpty) (hbuilder : ∀ ev, builder.nostrEvent ev ≠ [])
    {calls : List DbCall} (hsound : ∀ c ∈ calls, c.Sound fb) {ev : Event}
    (h : ev ∈ (db.runCalls fb builder calls).2.map Prod.fst) :
    ev ∈ calls.filterMap (DbCall.event fb) := by
  suffices hgen : ∀ (calls : List DbCall) (db : NostrDB) (log : List (Event × Bytes)),
      (∀ c ∈ calls, c.Sound fb) →
      ev ∈ (calls.foldl (logCall fb builder) (db, log)).2.map Prod.fst →
      ev ∈ calls.filterMap (DbCall.event fb) ∨ ev ∈ log.map Prod.fst by
    exact (hgen calls db [] hsound h).elim id fun hnil => absurd hnil not_mem_nil
  intro calls
  induction calls with
  | nil => exact fun _ _ _ h => .inr h
  | cons c rest ih =>
    intro db log hsound h
    rcases ih _ _ (fun c' hc' => hsound c' (mem_cons_of_mem _ hc')) h with hrest | hlog
    · obtain ⟨c', hc', hev⟩ := List.mem_filterMap.mp hrest
      exact .inl (List.mem_filterMap.mpr ⟨c', mem_cons_of_mem _ hc', hev⟩)
    · rw [map_append, mem_append, mem_map] at hlog
      rcases hlog with ⟨entry, hentry, rfl⟩ | hlog
      · exact .inl (List.mem_filterMap.mpr ⟨c, mem_cons_self,
          stores_event hfb hbuilder (hsound c mem_cons_self) (Option.mem_toList.mp hentry)⟩)
      · exact .inr hlog

/-- **Every run of calls** keeps the state tracked by its log. -/
theorem TrackedBy.runCalls (hfb : fb.RejectsEmpty) (hbuilder : ∀ ev, builder.nostrEvent ev ≠ [])
    (calls : List DbCall) : ∀ {db : NostrDB} {log : List (Event × Bytes)}, db.TrackedBy log →
    (∀ c ∈ calls, c.Sound fb) →
    DeterminedIds (calls.filterMap (DbCall.event fb) ++ log.map Prod.fst) →
    (calls.foldl (logCall fb builder) (db, log)).1.TrackedBy
      (calls.foldl (logCall fb builder) (db, log)).2 := by
  induction calls with
  | nil => exact fun h _ _ => h
  | cons c rest ih =>
    intro db log h hsound hdet
    rw [foldl_cons]
    have hc := hsound c mem_cons_self
    refine ih (h.call hfb hbuilder hc ?_) (fun c' hc' => hsound c' (mem_cons_of_mem _ hc')) ?_
    · -- the event of this call is one of the run
      refine hdet.of_subset fun x hx => ?_
      rcases List.mem_append.mp hx with hx | hx
      · exact mem_append_left _
          (List.mem_filterMap.mpr ⟨c, mem_cons_self, Option.mem_toList.mp hx⟩)
      · exact mem_append_right _ hx
    · refine hdet.of_subset fun x hx => ?_
      rw [map_append, mem_append, mem_append, mem_map] at hx
      rcases hx with hx | ⟨entry, hentry, rfl⟩ | hx
      · obtain ⟨c', hc', hev⟩ := List.mem_filterMap.mp hx
        exact mem_append_left _
          (List.mem_filterMap.mpr ⟨c', mem_cons_of_mem _ hc', hev⟩)
      · exact mem_append_left _ (List.mem_filterMap.mpr ⟨c, mem_cons_self,
          stores_event hfb hbuilder hc (Option.mem_toList.mp hentry)⟩)
      · exact mem_append_right _ hx

theorem initializeDb_new (fb : FlatBuffers) (maxBufferSize : ℕ) :
    (new maxBufferSize).initializeDb fb
      = { index := IndexState.empty, isInitialized := true,
          storage := (ShardedStorage.newDefault maxBufferSize).initializeStorage } := by
  have hload : ((ShardedStorage.newDefault maxBufferSize).initializeStorage).loadEvents = [] := by
    rw [ShardedStorage.loadEvents, flatMap_eq_nil_iff]
    intro g _
    have hwin := (RingBuffer.window_new (shardCapacity maxBufferSize g)).initializeStorage
    rw [map_eq_nil_iff]
    exact hwin.loadEvents
  simp only [initializeDb, new, Bool.false_eq_true, if_false, hload, if_true]

theorem trackedBy_new (fb : FlatBuffers) {maxBufferSize : ℕ}
    (hcap : maxBufferSize + legacyDedicatedBytes ≤ 2 ^ 32) :
    ((new maxBufferSize).initializeDb fb).TrackedBy [] := by
  rw [initializeDb_new]
  refine ⟨fun _ => [], (ShardedStorage.holds_newDefault hcap).initializeStorage,
    DatabaseIndexes.represents_new, ?_⟩
  intro id record hrec
  cases hrec

end NostrDB

end Nipworker
