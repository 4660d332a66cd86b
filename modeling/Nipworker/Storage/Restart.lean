/-
No resurrection across a restart.

Before a restart an event may be suppressed through any of the four routes of
`Fate`, in whatever order the event and its deletion came.  After it there is
only one order: the messages of the rings are indexed, shard by shard, and then
the deletion log is replayed.  What connects the two is that every kind 5 the
index has ever seen is in the log: the invariant `Consistent`.
-/
import Nipworker.Storage.AuthorSafety
import Nipworker.Storage.Snapshot
import Nipworker.Storage.TombstoneWal

namespace Nipworker

open List

section

variable {fb : FlatBuffers}

/-! ### Messages that hold an event -/

variable {bytes : Bytes} {msgs entries : List Bytes} {w : World} {payloads : ShardId → List Bytes}
    {maxBufferSize : ℕ}

theorem storedMessage_of_wrapped {ev : Event} (h : fb.wrappedEvent bytes = some ev) :
    ∃ stored : StoredEvent, stored.event = ev ∧
      (fb.storedMessage bytes).bind Message.storedEvent = some stored := by
  unfold FlatBuffers.wrappedEvent at h
  unfold FlatBuffers.storedMessage
  rcases hmsg : fb.workerMessage bytes with _ | p | n | _ <;> rw [hmsg] at h <;> cases h
  · exact ⟨.parsed p, rfl, rfl⟩
  · exact ⟨.nostr n, rfl, rfl⟩

theorem storedEvent_of_wrapped {ev : Event} (h : fb.wrappedEvent bytes = some ev) :
    fb.storedEvent bytes = some ev := by
  obtain ⟨stored, rfl, hstored⟩ := storedMessage_of_wrapped h
  unfold FlatBuffers.storedEvent
  rcases hmsg : fb.storedMessage bytes with _ | p | n | _ <;> rw [hmsg] at hstored <;> cases hstored
    <;> rfl

theorem deletionEventId_eq (fb : FlatBuffers) (bytes : Bytes) :
    deletionEventId fb bytes
      = (fb.wrappedEvent bytes).bind
          (fun ev => if ev.kind = eventDeletion then some ev.id else none) := by
  unfold deletionEventId FlatBuffers.wrappedEvent
  rcases fb.workerMessage bytes with _ | p | n | _ <;> rfl

theorem deletionEventId_eq_some {id : String} :
    deletionEventId fb bytes = some id ↔
      ∃ ev, fb.wrappedEvent bytes = some ev ∧ ev.kind = eventDeletion ∧ ev.id = id := by
  rw [deletionEventId_eq, Option.bind_eq_some_iff]
  refine exists_congr fun ev => and_congr_right fun _ => ?_
  split <;> simp_all

/-! ### Replaying the log -/

def replayOp (fb : FlatBuffers) (entry : Bytes) : Option IndexOp :=
  (fb.wrappedEvent entry).map .replay

theorem foldl_replay (fb : FlatBuffers) (entries : List Bytes) :
    ∀ (st : IndexState) (ids : Finset String),
    entries.foldl (fun acc entry =>
        let (st, id) := applyDeletionsFromBytes fb acc.1 entry
        (st, id.elim acc.2 fun id => insert id acc.2)) (st, ids)
      = (st.run (entries.filterMap (replayOp fb)),
          ids ∪ (entries.filterMap (deletionEventId fb)).toFinset) := by
  induction entries with
  | nil =>
    intro st ids
    rw [foldl_nil, filterMap_nil, filterMap_nil, toFinset_nil,
      Finset.union_empty]
    rfl
  | cons entry rest ih =>
    intro st ids
    rw [foldl_cons]
    dsimp only
    rw [ih, applyDeletionsFromBytes_fst, applyDeletionsFromBytes_snd, ← deletionEventId_eq]
    refine Prod.ext ?_ ?_
    · show IndexState.run _ _ = _
      rcases hev : fb.wrappedEvent entry with _ | ev
      · rw [filterMap_cons_none (by rw [replayOp, hev]; rfl)]
      · rw [filterMap_cons_some (b := .replay ev) (by rw [replayOp, hev]; rfl)]
        rfl
    · show _ ∪ _ = _
      rcases hid : deletionEventId fb entry with _ | id
      · rw [filterMap_cons_none hid, Option.elim_none]
      · rw [filterMap_cons_some hid, Option.elim_some, toFinset_cons,
          Finset.insert_union, Finset.union_insert]

/-! ### The deletion log of a run -/

/-- The messages of a run: each holds an event, an id determines its event,
pubkeys hold no colon, and there are no more deletions than the log keeps. -/
structure RunMessages (fb : FlatBuffers) (msgs : List Bytes) : Prop where
  wrapped : ∀ bytes ∈ msgs, (fb.wrappedEvent bytes).isSome = true
  determined : DeterminedIds (msgs.filterMap fb.wrappedEvent)
  colonFree : ∀ ev ∈ msgs.filterMap fb.wrappedEvent, ':' ∉ ev.pubkey.toList
  few : (msgs.filterMap (deletionEventId fb)).toFinset.card ≤ maxWalEntries

/-- The log in memory and in the blob: deletions of the run, each of them
once. -/
structure DeletionLog (fb : FlatBuffers) (msgs entries : List Bytes) (w : World) : Prop where
  holds : WalHolds w.store entries
  ids : w.store.walIds = (entries.filterMap (deletionEventId fb)).toFinset
  subset : ∀ entry ∈ entries, entry ∈ msgs
  deletion : ∀ entry ∈ entries, (deletionEventId fb entry).isSome = true
  nodup : (entries.filterMap (deletionEventId fb)).Nodup
  durable : w.blobs.lookup tombstonesKey = some (frameLog entries) ∨
    (w.blobs.lookup tombstonesKey = none ∧ entries = [])

theorem Frame.deletionLog {w' : World} (h : Frame w w')
    (hlog : DeletionLog fb msgs entries w) : DeletionLog fb msgs entries w' :=
  ⟨h.walHolds hlog.holds, h.2.2.1.trans hlog.ids, hlog.subset, hlog.deletion, hlog.nodup,
    by rw [h.1]; exact hlog.durable⟩

theorem DeletionLog.entry_of_known
    (h : DeletionLog fb msgs entries w) (hmsgs : RunMessages fb msgs) {ev : Event}
    (hbytes : bytes ∈ msgs) (hev : fb.wrappedEvent bytes = some ev) (hid : ev.id ∈ w.store.walIds) :
    ∃ entry ∈ entries, fb.wrappedEvent entry = some ev := by
  rw [h.ids, mem_toFinset, mem_filterMap] at hid
  obtain ⟨entry, hentry, hid⟩ := hid
  obtain ⟨ev', hev', -, hsame⟩ := deletionEventId_eq_some.mp hid
  have heq : ev' = ev := hmsgs.determined ev'
    (List.mem_filterMap.mpr ⟨entry, h.subset entry hentry, hev'⟩) ev
    (List.mem_filterMap.mpr ⟨bytes, hbytes, hev⟩) hsame
  exact ⟨entry, hentry, heq ▸ hev'⟩

/-- **A new deletion** is appended to the log, which is not compacted. -/
theorem DeletionLog.append {w' : World}
    (h : DeletionLog fb msgs entries w) (hfb : fb.Bounded) (hmsgs : RunMessages fb msgs)
    {id : String} (hbytes : bytes ∈ msgs) (hid : deletionEventId fb bytes = some id)
    (hnew : id ∉ w.store.walIds) (hstore : w'.store = appendWal fb w.store id bytes)
    (hblobs : w'.blobs = AList.insert tombstonesKey w'.store.wal w.blobs) :
    DeletionLog fb msgs (entries ++ [bytes]) w' := by
  have hids : ∀ id', id' ∈ w.store.walIds ↔ id' ∈ entries.filterMap (deletionEventId fb) := by
    intro id'
    rw [h.ids, mem_toFinset]
  have happend : (entries ++ [bytes]).filterMap (deletionEventId fb)
      = entries.filterMap (deletionEventId fb) ++ [id] := by
    rw [filterMap_append, filterMap_cons_some hid, filterMap_nil]
  have hnodup : ((entries ++ [bytes]).filterMap (deletionEventId fb)).Nodup := by
    rw [happend, nodup_append_comm, singleton_append, nodup_cons]
    exact ⟨fun hmem => hnew ((hids id).mpr hmem), h.nodup⟩
  have hsubset : ∀ entry ∈ entries ++ [bytes], entry ∈ msgs := by
    intro entry hentry
    rcases List.mem_append.mp hentry with hentry | hentry
    · exact h.subset entry hentry
    · rwa [List.mem_singleton.mp hentry]
  have hdeletion : ∀ entry ∈ entries ++ [bytes], (deletionEventId fb entry).isSome = true := by
    intro entry hentry
    rcases List.mem_append.mp hentry with hentry | hentry
    · exact h.deletion entry hentry
    · rw [List.mem_singleton.mp hentry, hid]
      rfl
  -- one entry for each deletion of the run: the log is not full
  have hfew : entries.length + 1 ≤ maxWalEntries := by
    refine le_trans ?_ hmsgs.few
    have hlength : ((entries ++ [bytes]).filterMap (deletionEventId fb)).length
        = entries.length + 1 := by
      rw [List.filterMap_length_eq_length.mpr hdeletion, length_append, length_singleton]
    rw [← hlength, ← toFinset_card_of_nodup hnodup]
    refine Finset.card_le_card fun id' hid' => ?_
    rw [mem_toFinset, mem_filterMap] at hid' ⊢
    obtain ⟨entry, hentry, hid'⟩ := hid'
    exact ⟨entry, hsubset entry hentry, hid'⟩
  obtain ⟨k, -, hholds, hk⟩ := appendWal_spec fb h.holds id (deletionEventId_bounded hfb hid)
  rw [hk (by omega), drop_zero, ← hstore] at hholds
  refine ⟨hholds, ?_, hsubset, hdeletion, hnodup, .inl ?_⟩
  · rw [hstore, appendWal]
    dsimp only
    rw [h.holds.count, if_neg (by omega), happend, toFinset_append, h.ids, Finset.union_comm]
    rfl
  · rw [hblobs, AList.lookup_insert, hholds.wal]

/-! ### What the storage is made of -/

/-- Everything in the rings, in the snapshots and in the index comes from
messages with the property `P`. -/
structure Made (fb : FlatBuffers) (P : Bytes → Prop) (w : World) : Prop where
  rings : ∃ history, w.store.core.storage.Holds history ∧ ∀ g, ∀ payload ∈ history g, P payload
  opened : ∀ g, (w.store.core.storage.shards g).initialized = true
  snapshots : ∃ payloads, w.Snapshots payloads ∧
    ∀ g, (∀ payload ∈ payloads g, P payload) ∧ (frameLog (payloads g)).length ≤ 2 ^ 32
  index : ∃ evs ops, w.store.core.index = (preallocated evs).run ops ∧
    ∀ op ∈ ops, ∃ bytes, P bytes ∧ fb.wrappedEvent bytes = some op.event

variable {P Q : Bytes → Prop}

theorem Made.mono (h : Made fb P w) (hPQ : ∀ bytes, P bytes → Q bytes) : Made fb Q w := by
  obtain ⟨⟨history, hholds, hP⟩, hopened, ⟨payloads, hsnap, hpay⟩, evs, ops, hindex, hops⟩ := h
  refine ⟨⟨history, hholds, fun g payload hp => hPQ _ (hP g payload hp)⟩, hopened,
    ⟨payloads, hsnap, fun g => ⟨fun payload hp => hPQ _ ((hpay g).1 payload hp), (hpay g).2⟩⟩,
    evs, ops, hindex, fun op hop => ?_⟩
  obtain ⟨bytes, hbytes, hev⟩ := hops op hop
  exact ⟨bytes, hPQ _ hbytes, hev⟩

theorem Made.congr {w' : World} (h : Made fb P w) (hcore : w'.store.core = w.store.core)
    (hsnap : ∀ payloads, w.Snapshots payloads → w'.Snapshots payloads) : Made fb P w' := by
  obtain ⟨payloads, hpayloads, hpay⟩ := h.snapshots
  refine ⟨?_, ?_, ⟨payloads, hsnap payloads hpayloads, hpay⟩, ?_⟩
  · rw [hcore]
    exact h.rings
  · rw [hcore]
    exact h.opened
  · rw [hcore]
    exact h.index

/-- **A message in the core**: it is refused, or stored and indexed. -/
theorem Made.corePersist (hempty : fb.RejectsEmpty) (h : Made fb P w)
    {ev : Event} (hev : fb.wrappedEvent bytes = some ev) :
    (∃ e, Storage.corePersist fb bytes w = (w, .error e)) ∨
      ∃ w', Storage.corePersist fb bytes w = (w', .ok ()) ∧
        Made fb (fun x => P x ∨ x = bytes) w' := by
  obtain ⟨stored, rfl, hstored⟩ := storedMessage_of_wrapped hev
  obtain ⟨msg, hmsg, hstored⟩ := Option.bind_eq_some_iff.mp hstored
  have hne : bytes ≠ [] := by
    rintro rfl
    rw [FlatBuffers.wrappedEvent, hempty.workerMessage] at hev
    cases hev
  obtain ⟨history, hholds, hP⟩ := h.rings
  unfold Storage.corePersist
  rw [NostrDB.addWorkerMessageBytes_eq, hmsg]
  dsimp only
  rw [hstored]
  dsimp only
  unfold NostrDB.storeAndIndex
  rcases hholds.addEventForKind stored.event.kind.toNat hne with
    ⟨e, he⟩ | ⟨s, hs, hholds', hinit⟩
  · left
    rw [he]
    exact ⟨_, rfl⟩
  · right
    generalize packOffset _ _ = offset at hs
    rw [hs]
    obtain ⟨evs, ops, hindex, hops⟩ := h.index
    obtain ⟨payloads, hsnap, hpay⟩ := h.snapshots
    refine ⟨_, rfl, ⟨_, hholds', ?_⟩, fun g => (hinit g).trans (h.opened g),
      ⟨payloads, hsnap.congr rfl, fun g => ⟨fun x hx => .inl ((hpay g).1 x hx), (hpay g).2⟩⟩, evs,
      ops ++ [.index stored.event offset], ?_, ?_⟩
    · refine (Function.forall_update_iff history
        fun g payloads => ∀ x ∈ payloads, P x ∨ x = bytes).mpr
        ⟨fun x hx => ?_, fun g _ x hx => .inl (hP g x hx)⟩
      rcases List.mem_append.mp hx with hx | hx
      · exact .inl (hP _ x hx)
      · exact .inr (List.mem_singleton.mp hx)
    · show indexStoredEvent w.store.core.index stored _ = _
      rw [indexStoredEvent_eq, hindex, IndexState.run_append]
      rfl
    · intro op hop
      rcases List.mem_append.mp hop with hop | hop
      · obtain ⟨x, hx, hxev⟩ := hops op hop
        exact ⟨x, .inl hx, hxev⟩
      · rw [List.mem_singleton.mp hop]
        exact ⟨bytes, .inr rfl, hev⟩

/-- The shard holds the bytes. -/
def ShardedStorage.Stores (s : ShardedStorage) (g : ShardId) (bytes : Bytes) : Prop :=
  ∃ offset ∈ (s.shards g).loadEvents, (s.shards g).getEventAtOffset offset = .ok (some bytes)

theorem mem_of_stores {s : ShardedStorage} {g : ShardId} {history : List Bytes} {k : ℕ}
    (hwin : (s.shards g).Window history k) (hinit : (s.shards g).initialized = true)
    (h : s.Stores g bytes) : bytes ∈ history.drop k := by
  obtain ⟨offset, hoffset, hread⟩ := h
  rw [hwin.loadEvents, mem_map] at hoffset
  obtain ⟨j, hj, rfl⟩ := hoffset
  rw [mem_range] at hj
  have hget : history[k + j]? = some (history[k + j]) := List.getElem?_eq_getElem (by omega)
  rw [hwin.getEventAtOffset hinit hget, if_neg (by omega)] at hread
  cases hread
  exact mem_iff_getElem?.mpr ⟨j, by rw [List.getElem?_drop, hget]⟩

/-- **A sync** writes what is in the rings of the persistent shards. -/
theorem Made.sync (h : Made fb P w) (order : IterOrder ShardId) :
    ∃ w' payloads, Storage.syncToBlobStore neverFails order w = (w', .ok ()) ∧ Made fb P w' ∧
      w'.Snapshots payloads ∧
      (∀ g, (∀ payload ∈ payloads g, P payload) ∧ (frameLog (payloads g)).length ≤ 2 ^ 32) ∧
      ∀ g bytes, g.isPersistent = true → w.store.core.storage.Stores g bytes →
        bytes ∈ payloads g := by
  obtain ⟨history, hholds, hP⟩ := h.rings
  choose k hwin using hholds.window
  obtain ⟨payloads, hsnap, hpay⟩ := h.snapshots
  obtain ⟨w', hsync, hstore, hsnap'⟩ := hsnap.sync hwin order
  have hpay' : ∀ g, (∀ payload ∈ (if g.isPersistent = true ∧ (history g).drop (k g) ≠ [] then
      (history g).drop (k g) else payloads g), P payload) ∧
      (frameLog (if g.isPersistent = true ∧ (history g).drop (k g) ≠ [] then
        (history g).drop (k g) else payloads g)).length ≤ 2 ^ 32 := by
    intro g
    split
    · refine ⟨fun x hx => hP g x (mem_of_mem_drop hx), ?_⟩
      rw [← (hwin g).buffer]
      exact hholds.length_le g
    · exact hpay g
  refine ⟨w', _, hsync, ⟨?_, ?_, ⟨_, hsnap', hpay'⟩, ?_⟩, hsnap', hpay', fun g bytes hg hstores => ?_⟩
  · rw [hstore]
    exact h.rings
  · rw [hstore]
    exact h.opened
  · rw [hstore]
    exact h.index
  · have hmem := mem_of_stores (hwin g) (h.opened g) hstores
    rw [if_pos ⟨hg, ne_nil_of_mem hmem⟩]
    exact hmem

/-! ### Opening a storage -/

/-- **The replay** of the log that is in the blob, by a storage without one. -/
theorem loadTombstones_spec (hbounded : ∀ entry ∈ entries, entry.length < 2 ^ 32)
    (hdurable : w.blobs.lookup tombstonesKey = some (frameLog entries) ∨
      (w.blobs.lookup tombstonesKey = none ∧ entries = []))
    (hholds : WalHolds w.store []) (hids : w.store.walIds = ∅) :
    ∃ w', Storage.loadTombstones neverFails fb w = (w', .ok ()) ∧ w'.blobs = w.blobs ∧
      w'.store.core.storage = w.store.core.storage ∧
      w'.store.core.index = w.store.core.index.run (entries.filterMap (replayOp fb)) ∧
      WalHolds w'.store entries ∧
      w'.store.walIds = (entries.filterMap (deletionEventId fb)).toFinset := by
  unfold Storage.loadTombstones
  rw [Fallible.bind_ok (Storage.get_neverFails _ _)]
  rcases hdurable with hblob | ⟨hblob, rfl⟩
  · rw [hblob]
    have hreplay := replayWal_holds fb w.store (frameLog entries)
    rw [unframe_frameLog hbounded] at hreplay
    refine ⟨_, rfl, rfl, rfl, ?_, hreplay, ?_⟩
    · show (replayWal fb w.store (frameLog entries)).core.index = _
      unfold replayWal
      dsimp only
      rw [unframe_frameLog hbounded, foldl_replay]
    · show (replayWal fb w.store (frameLog entries)).walIds = _
      unfold replayWal
      dsimp only
      rw [unframe_frameLog hbounded, foldl_replay, hids]
      exact Finset.empty_union _
  · rw [hblob]
    exact ⟨_, rfl, rfl, rfl, rfl, hholds, hids⟩

variable (fb) in
/-- **A fresh storage over the blobs**: it reads the snapshots back and then
replays the log. -/
theorem reopen_spec (maxBufferSize : ℕ) (order : IterOrder ShardId) (now : ℕ)
    (hsnap : w.Snapshots payloads) (hsmall : ∀ g, (frameLog (payloads g)).length ≤ 2 ^ 32)
    (hlog : DeletionLog fb msgs entries w) :
    ∃ w', Storage.initializeStorage neverFails fb order now
        { w with store := PersistentStorage.new maxBufferSize } = (w', .ok ()) ∧
      w'.Snapshots payloads ∧ DeletionLog fb msgs entries w' ∧
      (∀ g, (w'.store.core.storage.shards g).Window (payloads g) 0 ∧
        (w'.store.core.storage.shards g).initialized = true ∧
        (w'.store.core.storage.shards g).maxBufferSize = shardCapacity maxBufferSize g) ∧
      ∃ evs, w'.store.core.index = (preallocated evs).run
        ((ShardedStorage.contents payloads fun _ => 0).filterMap (indexOp fb)
          ++ entries.filterMap (replayOp fb)) := by
  obtain ⟨w₁, hw₁⟩ : ∃ w₁ : World, w₁ = { w with
      store := { PersistentStorage.new maxBufferSize with
        core := (NostrDB.new maxBufferSize).initializeDb fb } } := ⟨_, rfl⟩
  have hblobs₁ : w₁.blobs = w.blobs := by rw [hw₁]
  have hholds₁ : WalHolds w₁.store [] := by
    rw [hw₁]
    exact ⟨rfl, rfl, nofun⟩
  have hids₁ : w₁.store.walIds = ∅ := by rw [hw₁]; rfl
  obtain ⟨w₂, hhydrate, hblobs₂, hreads, hcap⟩ := Storage.hydrate_spec fb maxBufferSize order
    (hsnap.congr hblobs₁) (by rw [hw₁]) fun g => lt_of_le_of_lt (hsmall g) (by omega)
  have hframe : Frame w₁ w₂ := by
    have hkeeps : Frame w₁ (Storage.hydrateFromBlobStore neverFails fb order w₁).1 :=
      Storage.frame_hydrate order w₁
    rwa [hhydrate] at hkeeps
  obtain ⟨evs, hindex⟩ := hreads.index
  have hlookup : w₂.blobs.lookup tombstonesKey = w.blobs.lookup tombstonesKey := by
    rw [hblobs₂, hblobs₁]
  obtain ⟨w₃, hload, hblobs₃, hstorage, hindex₃, hholds₃, hids₃⟩ :=
    loadTombstones_spec hlog.holds.bounded (by rw [hlookup]; exact hlog.durable)
      (hframe.walHolds hholds₁) (hframe.2.2.1.trans hids₁)
  refine ⟨{ w₃ with store := { w₃.store with lastSyncMs := now } }, ?_, ?_,
    ⟨⟨hholds₃.wal, hholds₃.count, hholds₃.bounded⟩, hids₃, hlog.subset, hlog.deletion, hlog.nodup,
      ?_⟩, fun g => ?_, evs, ?_⟩
  · unfold Storage.initializeStorage
    rw [Fallible.bind_ok (show Fallible.change _ _ = (w₁, .ok ()) by rw [hw₁]; rfl),
      Fallible.bind_ok hhydrate, Fallible.bind_ok hload]
    rfl
  · exact hsnap.congr (hblobs₃.trans (hblobs₂.trans hblobs₁))
  · show w₃.blobs.lookup tombstonesKey = _ ∨ w₃.blobs.lookup tombstonesKey = _ ∧ _
    rw [hblobs₃, hlookup]
    exact hlog.durable
  · show (w₃.store.core.storage.shards g).Window _ _ ∧ (w₃.store.core.storage.shards g).initialized
      = _ ∧ (w₃.store.core.storage.shards g).maxBufferSize = _
    rw [hstorage]
    exact ⟨hreads.window g, hreads.opened g, hcap g⟩
  · show w₃.store.core.index = _
    rw [hindex₃, hindex, IndexState.run_append]

/-! ### Runs -/

/-- A message of the run whose deletion, if it is one, is in the log. -/
def Accounted (fb : FlatBuffers) (msgs entries : List Bytes) (bytes : Bytes) : Prop :=
  bytes ∈ msgs ∧ ∀ ev, fb.wrappedEvent bytes = some ev → ev.kind = eventDeletion →
    ∃ entry ∈ entries, fb.wrappedEvent entry = some ev

theorem Accounted.mono {entries' : List Bytes}
    (h : Accounted fb msgs entries bytes) (hsub : ∀ entry ∈ entries, entry ∈ entries') :
    Accounted fb msgs entries' bytes := by
  refine ⟨h.1, fun ev hev hkind => ?_⟩
  obtain ⟨entry, hentry, heq⟩ := h.2 ev hev hkind
  exact ⟨entry, hsub entry hentry, heq⟩

/-- The invariant of a run: all that is stored, snapshotted or indexed comes
from messages of the run, and every deletion among them is in the log. -/
structure Consistent (fb : FlatBuffers) (msgs entries : List Bytes) (w : World) : Prop where
  made : Made fb (Accounted fb msgs entries) w
  log : DeletionLog fb msgs entries w

theorem Consistent.sync (h : Consistent fb msgs entries w) (order : IterOrder ShardId) :
    ∃ w', Storage.syncToBlobStore neverFails order w = (w', .ok ()) ∧
      Consistent fb msgs entries w' := by
  obtain ⟨w', -, hsync, hmade, -⟩ := h.made.sync order
  have hframe : Frame w (Storage.syncToBlobStore neverFails order w).1 := Storage.frame_sync order w
  rw [hsync] at hframe
  exact ⟨w', hsync, hmade, hframe.deletionLog h.log⟩

theorem Consistent.syncIfDue
    (h : Consistent fb msgs entries w) (order : IterOrder ShardId) (now now' : ℕ) :
    Consistent fb msgs entries (Storage.syncIfDue neverFails order now now' w).1 := by
  unfold Storage.syncIfDue
  rw [Fallible.bind_ok (show Fallible.read w = (w, .ok w) from rfl)]
  split
  · obtain ⟨w₁, hsync, h₁⟩ := h.sync order
    rw [Fallible.bind_ok hsync]
    exact ⟨h₁.made.congr rfl fun _ hp => hp.congr rfl,
      (Storage.frame_markSynced now' w₁).deletionLog h₁.log⟩
  · exact h

theorem appendWal_core (s : PersistentStorage) (id : String) (bytes : Bytes) :
    (appendWal fb s id bytes).core = s.core := by
  unfold appendWal
  dsimp only
  split <;> rfl

variable (fb) in
theorem persistDeletion_ok (bytes : Bytes) (w : World) :
    (Storage.persistDeletion neverFails fb bytes w).2 = .ok () := by
  unfold Storage.persistDeletion
  rcases deletionEventId fb bytes with _ | id
  · rfl
  · dsimp only
    rw [Fallible.bind_ok (show Fallible.read w = (w, .ok w) from rfl)]
    split <;> rfl

/-- **A message** keeps the invariant: a deletion that is new is logged, one
that is known has an entry already. -/
theorem Consistent.persist (hempty : fb.RejectsEmpty) (hfb : fb.Bounded)
    (hmsgs : RunMessages fb msgs)
    (h : Consistent fb msgs entries w) (order : IterOrder ShardId) (now now' : ℕ)
    (hbytes : bytes ∈ msgs) :
    ∃ entries', Consistent fb msgs entries'
      (Storage.persist neverFails fb order now now' bytes w).1 := by
  obtain ⟨ev, hev⟩ := Option.isSome_iff_exists.mp (hmsgs.wrapped bytes hbytes)
  unfold Storage.persist
  rcases h.made.corePersist hempty hev with ⟨e, he⟩ | ⟨w₁, hcore, hmade⟩
  · rw [Fallible.bind_error he]
    exact ⟨entries, h⟩
  · rw [Fallible.bind_ok hcore]
    have hframe : Frame w (Storage.corePersist fb bytes w).1 := Storage.frame_corePersist bytes w
    rw [hcore] at hframe
    have hlog := hframe.deletionLog h.log
    rcases persistDeletion_cases fb neverFails bytes w₁ with
      ⟨hnone, hknown⟩ | ⟨id, w₂, hid, hnew, hstore, ⟨e, hput, -⟩ | ⟨hput, hblobs⟩⟩
    · rw [Fallible.bind_ok hnone]
      have hacc : Accounted fb msgs entries bytes := by
        refine ⟨hbytes, fun ev' hev' hkind => hlog.entry_of_known hmsgs hbytes hev' ?_⟩
        exact hknown ev'.id (deletionEventId_eq_some.mpr ⟨ev', hev', hkind, rfl⟩)
      refine ⟨entries, Consistent.syncIfDue ⟨hmade.mono fun x hx => ?_, hlog⟩ order now now'⟩
      rcases hx with hx | rfl
      · exact hx
      · exact hacc
    · -- a write that fails: there is none
      have hok := persistDeletion_ok fb bytes w₁
      rw [hput] at hok
      cases hok
    · rw [Fallible.bind_ok hput]
      have hlog' := hlog.append hfb hmsgs hbytes hid hnew hstore hblobs
      have hacc : Accounted fb msgs (entries ++ [bytes]) bytes := by
        refine ⟨hbytes, fun ev' hev' _ => ⟨bytes, ?_, hev'⟩⟩
        exact mem_append_right _ (mem_singleton_self bytes)
      have hmade' : Made fb (Accounted fb msgs (entries ++ [bytes])) w₁ := by
        refine hmade.mono fun x hx => ?_
        rcases hx with hx | rfl
        · exact hx.mono fun entry hentry => mem_append_left _ hentry
        · exact hacc
      refine ⟨entries ++ [bytes], Consistent.syncIfDue ⟨hmade'.congr ?_ ?_, hlog'⟩ order now now'⟩
      · rw [hstore, appendWal_core]
      · intro payloads hpayloads
        exact hpayloads.of_insert_tombstones hblobs

theorem reopened_op (hmsgs : RunMessages fb msgs)
    (hpay : ∀ g, ∀ payload ∈ payloads g, Accounted fb msgs entries payload)
    (hlog : DeletionLog fb msgs entries w) :
    ∀ op ∈ (ShardedStorage.contents payloads fun _ => 0).filterMap (indexOp fb)
      ++ entries.filterMap (replayOp fb),
    ∃ bytes, Accounted fb msgs entries bytes ∧ fb.wrappedEvent bytes = some op.event := by
  intro op hop
  rcases List.mem_append.mp hop with hop | hop
  · obtain ⟨entry, hentry, hop⟩ := List.mem_filterMap.mp hop
    obtain ⟨g, hg⟩ := ShardedStorage.mem_contents.mp ⟨entry.1, hentry⟩
    have hacc := hpay g entry.2 (mem_of_mem_drop hg)
    obtain ⟨ev, hev⟩ := Option.isSome_iff_exists.mp (hmsgs.wrapped _ hacc.1)
    rw [indexOp, storedEvent_of_wrapped hev] at hop
    cases hop
    exact ⟨entry.2, hacc, hev⟩
  · obtain ⟨entry, hentry, hop⟩ := List.mem_filterMap.mp hop
    obtain ⟨ev, hev, rfl⟩ := Option.map_eq_some_iff.mp hop
    exact ⟨entry, ⟨hlog.subset entry hentry, fun ev' hev' _ => ⟨entry, hentry, hev'⟩⟩, hev⟩

/-- **A fresh storage** over snapshots and a log that accounts for them has the
invariant. -/
theorem consistent_reopen (hcap : maxBufferSize + legacyDedicatedBytes ≤ 2 ^ 32)
    (hmsgs : RunMessages fb msgs) (hsnap : w.Snapshots payloads)
    (hpay : ∀ g, (∀ payload ∈ payloads g, Accounted fb msgs entries payload) ∧
      (frameLog (payloads g)).length ≤ 2 ^ 32)
    (hlog : DeletionLog fb msgs entries w) (order : IterOrder ShardId) (now : ℕ) :
    Consistent fb msgs entries (Storage.initializeStorage neverFails fb order now
      { w with store := PersistentStorage.new maxBufferSize }).1 := by
  obtain ⟨w', hinit, hsnap', hlog', hring, evs, hindex⟩ :=
    reopen_spec fb maxBufferSize order now hsnap (fun g => (hpay g).2) hlog
  rw [hinit]
  refine ⟨⟨⟨payloads, ⟨fun g => ⟨0, (hring g).1⟩, fun g => ?_, fun g => ?_⟩, fun g => (hpay g).1⟩,
    fun g => (hring g).2.1, ⟨payloads, hsnap', hpay⟩, evs, _, hindex, fun op hop => ?_⟩, hlog'⟩
  · rw [(hring g).1.buffer, drop_zero]
    exact (hpay g).2
  · rw [(hring g).2.2]
    exact (shardCapacity_le maxBufferSize g).trans hcap
  · exact reopened_op hmsgs (fun g => (hpay g).1) hlog op hop

/-- What happens to a storage that is in use: it is given a message, its shards
are synced, or it is opened again over its blobs. -/
inductive SessionStep
  | persist (order : IterOrder ShardId) (now now' : ℕ) (bytes : Bytes)
  | sync (order : IterOrder ShardId)
  | reopen (order : IterOrder ShardId) (now : ℕ)

def SessionStep.steps : SessionStep → List StorageStep
  | .persist order now now' bytes => [.persist order now now' bytes]
  | .sync order => [.sync order]
  | .reopen order now => [.restart, .initializeStorage order now]

def SessionStep.message : SessionStep → Option Bytes
  | .persist _ _ _ bytes => some bytes
  | _ => none

theorem World.run_cons (maxBufferSize : ℕ) (fails : ℕ → Bool) (w : World) (step : StorageStep)
    (steps : List StorageStep) : w.run fb maxBufferSize fails (step :: steps)
      = (w.step fb maxBufferSize fails step).1.run fb maxBufferSize fails steps := rfl

/-- **Every run** of messages, syncs and restarts keeps the invariant. -/
theorem Consistent.run (hempty : fb.RejectsEmpty) (hfb : fb.Bounded)
    (hcap : maxBufferSize + legacyDedicatedBytes ≤ 2 ^ 32)
    (hmsgs : RunMessages fb msgs) (session : List SessionStep) :
    ∀ {entries : List Bytes} {w : World}, Consistent fb msgs entries w →
    (∀ bytes ∈ session.filterMap SessionStep.message, bytes ∈ msgs) →
    ∃ entries', Consistent fb msgs entries'
      (w.run fb maxBufferSize neverFails (session.flatMap SessionStep.steps)) := by
  induction session with
  | nil => exact fun h _ => ⟨_, h⟩
  | cons step rest ih =>
    intro entries w h hsub
    have hrest : ∀ bytes ∈ rest.filterMap SessionStep.message, bytes ∈ msgs := by
      intro bytes hbytes
      obtain ⟨s, hs, hmsg⟩ := List.mem_filterMap.mp hbytes
      exact hsub bytes (List.mem_filterMap.mpr ⟨s, mem_cons_of_mem _ hs, hmsg⟩)
    rw [flatMap_cons, World.run, foldl_append]
    have hnext : ∃ entries', Consistent fb msgs entries'
        (w.run fb maxBufferSize neverFails step.steps) := by
      cases step with
      | persist order now now' bytes =>
        exact h.persist hempty hfb hmsgs order now now'
          (hsub bytes (List.mem_filterMap.mpr ⟨_, mem_cons_self, rfl⟩))
      | sync order =>
        obtain ⟨w', hsync, hw'⟩ := h.sync order
        refine ⟨entries, ?_⟩
        show Consistent fb msgs entries (Storage.syncToBlobStore neverFails order w).1
        rw [hsync]
        exact hw'
      | reopen order now =>
        obtain ⟨payloads, hsnap, hpay⟩ := h.made.snapshots
        exact ⟨entries, consistent_reopen hcap hmsgs hsnap hpay h.log order now⟩
    obtain ⟨entries', hnext⟩ := hnext
    exact ih hnext hrest

theorem consistent_new (hcap : maxBufferSize + legacyDedicatedBytes ≤ 2 ^ 32)
    (hmsgs : RunMessages fb msgs) (order : IterOrder ShardId) (now : ℕ) :
    Consistent fb msgs [] (Storage.initializeStorage neverFails fb order now
      { store := .new maxBufferSize, blobs := ∅, ops := 0 }).1 := by
  have hsnap : World.Snapshots { store := .new maxBufferSize, blobs := ∅, ops := 0 } fun _ => [] :=
    ⟨fun _ => rfl, nofun, fun _ _ => rfl, rfl, .inr fun _ => rfl⟩
  have hlog : DeletionLog fb msgs [] { store := .new maxBufferSize, blobs := ∅, ops := 0 } :=
    ⟨⟨rfl, rfl, nofun⟩, rfl, nofun, nofun, nodup_nil, .inr ⟨rfl, rfl⟩⟩
  exact consistent_reopen hcap hmsgs hsnap (fun g => ⟨nofun, Nat.zero_le _⟩) hlog order now

/-! ### Suppression before and after a restart -/

theorem RunMessages.determined_ops (hmsgs : RunMessages fb msgs)
    {t : Event} (ht : t ∈ msgs.filterMap fb.wrappedEvent) {ops : List IndexOp}
    (hops : ∀ op ∈ ops, ∃ bytes, Accounted fb msgs entries bytes ∧
      fb.wrappedEvent bytes = some op.event) :
    DeterminedIds (t :: (ops.map IndexOp.event ++ [])) := by
  refine hmsgs.determined.of_subset fun ev hev => ?_
  rw [append_nil] at hev
  rcases List.mem_cons.mp hev with rfl | hev
  · exact ht
  · obtain ⟨op, hop, rfl⟩ := List.mem_map.mp hev
    obtain ⟨bytes, hacc, hbytes⟩ := hops op hop
    exact List.mem_filterMap.mpr ⟨bytes, hacc.1, hbytes⟩

theorem Consistent.covered (hmsgs : RunMessages fb msgs)
    (h : Consistent fb msgs entries w) {t : Event}
    (hbytes : bytes ∈ msgs) (ht : fb.wrappedEvent bytes = some t)
    (hsupp : w.store.core.index.Suppressed t.id) :
    ∃ del, IndexOp.replay del ∈ entries.filterMap (replayOp fb) ∧ del.kind = eventDeletion ∧
      covers del t = true := by
  obtain ⟨evs, ops, hindex, hops⟩ := h.made.index
  have htmem : t ∈ msgs.filterMap fb.wrappedEvent := List.mem_filterMap.mpr ⟨bytes, hbytes, ht⟩
  have hdet := hmsgs.determined_ops htmem hops
  -- what the automaton holds against `t` is owed to a deletion that was indexed or replayed
  have hhidden : (Fate.run t Fate.init ops).hidden = true := by
    rw [((tracks_preallocated t evs).run ops hdet).hidden, ← hindex]
    exact hsupp
  have hjust : Fate.Justified t ((ops.map IndexOp.event).filter fun ev => ev.kind = eventDeletion)
      (Fate.run t Fate.init ops) := Fate.Justified.init.run ops fun op hop hkind =>
    List.mem_filter.mpr ⟨mem_map_of_mem hop, decide_eq_true hkind⟩
  obtain ⟨del, hdel, hreach⟩ := hjust.hidden hhidden
  rw [mem_filter, decide_eq_true_eq] at hdel
  obtain ⟨op, hop, rfl⟩ := List.mem_map.mp hdel.1
  obtain ⟨b, hacc, hb⟩ := hops op hop
  -- and it has an entry in the log
  obtain ⟨entry, hentry, hev⟩ := hacc.2 op.event hb hdel.2
  refine ⟨op.event, List.mem_filterMap.mpr ⟨entry, hentry, by rw [replayOp, hev]; rfl⟩, hdel.2, ?_⟩
  exact hreach.elim id (covers_of_addresses (hmsgs.colonFree t htmem))

/-- **A sync and a restart** of a consistent storage: a suppressed event that is
stored in a persistent shard is indexed from the snapshot, and then a deletion
that covers it is replayed. -/
theorem Consistent.suppressed_reopen (maxBufferSize : ℕ) (order order' : IterOrder ShardId)
    (now : ℕ) (hmsgs : RunMessages fb msgs)
    (h : Consistent fb msgs entries w) {t : Event} {g : ShardId}
    (hsupp : w.store.core.index.Suppressed t.id) (hg : g.isPersistent = true)
    (hstores : w.store.core.storage.Stores g bytes) (ht : fb.wrappedEvent bytes = some t) :
    (w.run fb maxBufferSize neverFails
      [.sync order, .restart, .initializeStorage order' now]).store.core.index.Suppressed t.id := by
  obtain ⟨w₁, payloads, hsync, -, hsnap, hpay, hsaved⟩ := h.made.sync order
  have hmem := hsaved g bytes hg hstores
  have hbytes := ((hpay g).1 bytes hmem).1
  obtain ⟨del, hdel, hkind, hcovers⟩ := h.covered hmsgs hbytes ht hsupp
  have hframe : Frame w (Storage.syncToBlobStore neverFails order w).1 := Storage.frame_sync order w
  rw [hsync] at hframe
  have hlog := hframe.deletionLog h.log
  obtain ⟨w₂, hinit, -, -, -, evs, hindex⟩ :=
    reopen_spec fb maxBufferSize order' now hsnap (fun g => (hpay g).2) hlog
  have hrun : w.run fb maxBufferSize neverFails
      [.sync order, .restart, .initializeStorage order' now] = w₂ := by
    show (Storage.initializeStorage neverFails fb order' now
      { (Storage.syncToBlobStore neverFails order w).1 with
        store := PersistentStorage.new maxBufferSize }).1 = w₂
    rw [hsync, hinit]
  -- the event is indexed from the snapshot, under some offset
  obtain ⟨offset, hoffset⟩ : ∃ offset,
      (offset, bytes) ∈ ShardedStorage.contents payloads fun _ => 0 :=
    ShardedStorage.mem_contents.mpr ⟨g, hmem⟩
  have hop : IndexOp.index t offset ∈
      (ShardedStorage.contents payloads fun _ => 0).filterMap (indexOp fb) := by
    refine List.mem_filterMap.mpr ⟨(offset, bytes), hoffset, ?_⟩
    rw [indexOp, storedEvent_of_wrapped ht]
    rfl
  have hhidden := Fate.hidden_of_replayed Fate.init hop hdel hkind hcovers
  have hdet := hmsgs.determined_ops (List.mem_filterMap.mpr ⟨bytes, hbytes, ht⟩)
    (reopened_op hmsgs (fun g => (hpay g).1) hlog)
  rw [hrun, hindex, ← ((tracks_preallocated t evs).run _ hdet).hidden]
  exact hhidden

end

/-- **No resurrection.**  Open a storage over an empty blob store, in which no
operation fails, and give it any run of messages, syncs and restarts; then sync
and restart it.  Every event that was suppressed, and whose bytes were in a
persistent shard, is still suppressed. -/
theorem no_resurrection (fb : FlatBuffers) (hempty : fb.RejectsEmpty) (hfb : fb.Bounded)
    (maxBufferSize : ℕ) (hcap : maxBufferSize + legacyDedicatedBytes ≤ 2 ^ 32)
    (order order' order'' : IterOrder ShardId) (now now' : ℕ) (session : List SessionStep)
    (hmsgs : RunMessages fb (session.filterMap SessionStep.message)) :
    let w := World.run fb maxBufferSize neverFails
      { store := .new maxBufferSize, blobs := ∅, ops := 0 }
      (.initializeStorage order now :: session.flatMap SessionStep.steps)
    let w' := w.run fb maxBufferSize neverFails
      [.sync order', .restart, .initializeStorage order'' now']
    ∀ (t : Event) (g : ShardId) (bytes : Bytes), w.store.core.index.Suppressed t.id →
      g.isPersistent = true → w.store.core.storage.Stores g bytes →
      fb.wrappedEvent bytes = some t → w'.store.core.index.Suppressed t.id := by
  obtain ⟨entries, h⟩ : ∃ entries, Consistent fb (session.filterMap SessionStep.message) entries
      (World.run fb maxBufferSize neverFails { store := .new maxBufferSize, blobs := ∅, ops := 0 }
        (.initializeStorage order now :: session.flatMap SessionStep.steps)) := by
    rw [World.run_cons]
    exact Consistent.run hempty hfb hcap hmsgs session (consistent_new hcap hmsgs order now)
      fun _ hb => hb
  generalize World.run fb maxBufferSize neverFails _ (_ :: _) = w at h ⊢
  intro _ _ t g bytes hsupp hg hstores ht
  exact h.suppressed_reopen maxBufferSize order' order'' now' hmsgs hsupp hg hstores ht

/-- The note and its deletion, the deletion first and with a restart between
them. -/
def deletedNote : List SessionStep :=
  [.persist (.entries _) 1 1 noteDeletionBytes, .sync (.entries _), .reopen (.entries _) 2,
    .persist (.entries _) 3 3 noteBytes]

theorem noteReaders_rejectsEmpty : noteReaders.RejectsEmpty :=
  ⟨by decide +kernel, rfl, rfl⟩

theorem runMessages_deletedNote :
    RunMessages noteReaders (deletedNote.filterMap SessionStep.message) :=
  ⟨by decide +kernel, by decide +kernel, by decide +kernel, by decide +kernel⟩

theorem no_resurrection_deletedNote :
    let w := World.run noteReaders 8388608 neverFails
      { store := .new 8388608, blobs := ∅, ops := 0 }
      (.initializeStorage (.entries _) 0 :: deletedNote.flatMap SessionStep.steps)
    w.store.core.index.Suppressed "n1" ∧
      (w.run noteReaders 8388608 neverFails
        [.sync (.entries _), .restart, .initializeStorage (.entries _) 4]).store.core.index.Suppressed
          "n1" := by
  have hsupp : (World.run noteReaders 8388608 neverFails
      { store := .new 8388608, blobs := ∅, ops := 0 }
      (.initializeStorage (.entries _) 0 :: deletedNote.flatMap SessionStep.steps)
      ).store.core.index.Suppressed "n1" := by
    decide +kernel
  refine ⟨hsupp, no_resurrection noteReaders noteReaders_rejectsEmpty noteReaders_bounded 8388608
    (by decide) (.entries _) (.entries _) (.entries _) 0 4 deletedNote runMessages_deletedNote
    note.event .regular noteBytes hsupp (by decide) ⟨180, ?_, ?_⟩ (by decide +kernel)⟩
  · decide +kernel
  · decide +kernel

end Nipworker
