/-
Storages in use, over any blobs and with any failures.

A storage is opened over whatever its blob store holds, is given messages and
synced, and may be opened again, while blob operations fail at any time.
Whatever happens, a record of the index points to bytes in which its event is
stored, or to nothing: the invariant `Sound`.
-/
import Nipworker.Storage.Restart

namespace Nipworker

open List

/-! ### What `load_from_bytes` accepts -/

/-- Bytes that `load_from_bytes` accepts are a log. -/
theorem RingBuffer.frameLog_of_validateLog (bytes : Bytes) : ∀ p : ℕ,
    validateLog p bytes = .ok () →
    frameLog (unframe bytes) = bytes ∧ ∀ payload ∈ unframe bytes, Storable payload := by
  induction hn : bytes.length using Nat.strong_induction_on generalizing bytes with
  | _ n ih =>
    intro p h
    rw [validateLog] at h
    by_cases hshort : bytes.length < 4
    · rw [if_pos hshort] at h
      split at h
      · next hnil =>
        subst hnil
        rw [unframe_nil]
        exact ⟨rfl, fun payload hpayload => absurd hpayload not_mem_nil⟩
      · cases h
    · rw [if_neg hshort] at h
      dsimp only at h
      split at h
      · cases h
      · next hsize =>
        split at h
        · cases h
        · next hfits =>
          have htake : takeFrame bytes = some ((bytes.drop 4).take (U32.ofLeBytes bytes),
              bytes.drop (4 + U32.ofLeBytes bytes)) := by
            rw [takeFrame, if_neg hshort]
            dsimp only
            rw [if_neg hfits]
          obtain ⟨heq, hlt⟩ := eq_frame_append htake
          have hlen := takeFrame_length htake
          obtain ⟨hlog, hst⟩ := ih _ (by omega) (bytes.drop (4 + U32.ofLeBytes bytes)) rfl _ h
          rw [unframe_of_takeFrame htake]
          refine ⟨?_, List.forall_mem_cons.mpr ⟨⟨?_, hlt⟩, hst⟩⟩
          · rw [frameLog_cons, hlog]
            exact heq.symm
          · intro hnil
            have hzero := congrArg List.length hnil
            rw [length_take, length_drop, length_nil] at hzero
            omega

theorem ShardedStorage.loadAllShards_cases (shardBytes : ShardId → Option Bytes)
    (shards : List ShardId) : ∀ s : ShardedStorage, ∀ g : ShardId,
    (loadAllShards shardBytes s shards).1.shards g = s.shards g ∨
      ∃ bytes, shardBytes g = some bytes ∧ frameLog (unframe bytes) = bytes ∧
        (∀ payload ∈ unframe bytes, RingBuffer.Storable payload) ∧
        (loadAllShards shardBytes s shards).1.shards g = (s.shards g).reloaded (unframe bytes) := by
  induction shards with
  | nil => exact fun s g => .inl rfl
  | cons a rest ih =>
    intro s g
    unfold loadAllShards
    rcases hload : loadShard shardBytes s a with e | s₁
    · exact .inl rfl
    · dsimp only
      -- what the first shard does to this ring
      have hfirst : s₁.shards g = s.shards g ∨ ∃ bytes, shardBytes g = some bytes ∧
          frameLog (unframe bytes) = bytes ∧
          (∀ payload ∈ unframe bytes, RingBuffer.Storable payload) ∧
          s₁.shards g = (s.shards g).reloaded (unframe bytes) := by
        unfold loadShard at hload
        rcases hbytes : shardBytes a with _ | bytes <;> rw [hbytes] at hload
        · cases hload
          exact .inl rfl
        · dsimp only at hload
          split at hload
          · cases hload
            exact .inl rfl
          · unfold RingBuffer.loadFromBytes at hload
            rcases hvalid : RingBuffer.validateLog 0 bytes with e | ⟨⟩ <;> rw [hvalid] at hload
            · cases hload
            · cases hload
              by_cases hg : g = a
              · subst hg
                obtain ⟨hlog, hst⟩ := RingBuffer.frameLog_of_validateLog bytes 0 hvalid
                refine .inr ⟨bytes, hbytes, hlog, hst, ?_⟩
                show Function.update s.shards g _ g = _
                rw [Function.update_self, RingBuffer.reloaded, hlog]
              · exact .inl (Function.update_of_ne hg _ _)
      rcases ih s₁ g with heq | ⟨bytes, hbytes, hlog, hst, heq⟩
      · rw [heq]
        exact hfirst
      · refine .inr ⟨bytes, hbytes, hlog, hst, heq.trans ?_⟩
        rcases hfirst with hs₁ | ⟨_, _, _, _, hs₁⟩
        · rw [hs₁]
        · rw [hs₁]
          rfl

/-! ### A database that reads its events -/

/-- Each record points to a place where its event is stored, or was; the events
are among those that are known. -/
def NostrDB.ReadsEvents (fb : FlatBuffers) (known : List Event) (db : NostrDB) : Prop :=
  ∃ history evs, db.Tracks history evs
      (fun id bytes => ∃ ev ∈ evs, ev.id = id ∧ fb.storedEvent bytes = some ev) ∧
    (∀ ev ∈ evs, ev ∈ known) ∧
    (∀ g, ∀ payload ∈ history g, ∀ ev, fb.storedEvent payload = some ev → ev ∈ known) ∧
    ∀ g, (db.storage.shards g).initialized = true

theorem IndexState.run_placed {placed : Event → ℕ → Prop} (ops : List IndexOp)
    (hops : ∀ op ∈ ops, ∃ ev offset, op = .index ev offset ∧ placed ev offset) :
    ∀ {st : IndexState} {evs : List Event}, st.indexes.Represents evs →
    DeterminedIds (ops.map IndexOp.event ++ evs) →
    (∀ id r, st.indexes.record id = some r → ∃ ev ∈ evs, ev.id = id ∧ placed ev r.offset) →
    ∃ evs', (∀ ev ∈ evs', ev ∈ ops.map IndexOp.event ∨ ev ∈ evs) ∧
      (st.run ops).indexes.Represents evs' ∧
      ∀ id r, (st.run ops).indexes.record id = some r →
        ∃ ev ∈ evs', ev.id = id ∧ placed ev r.offset := by
  induction ops with
  | nil => exact fun {_ evs} hrep _ hplaced => ⟨evs, fun _ h => .inr h, hrep, hplaced⟩
  | cons op rest ih =>
    intro st evs hrep hdet hplaced
    obtain ⟨ev, offset, rfl, hnew⟩ := hops op mem_cons_self
    have hdet₁ : DeterminedIds (ev :: evs) := by
      refine hdet.of_subset fun x hx => ?_
      rcases List.mem_cons.mp hx with rfl | hx
      · exact mem_cons_self
      · exact mem_append_right _ hx
    have hrep₁ : (st.step (.index ev offset)).indexes.Represents (ev :: evs) := by
      show (indexEvent st ev offset).indexes.Represents _
      rw [NostrDB.indexEvent_indexes]
      exact hrep.indexFields hdet₁ offset
    obtain ⟨evs', hsub, hrep', hplaced'⟩ :=
      ih (fun op hop => hops op (mem_cons_of_mem _ hop)) hrep₁
        (hdet.of_subset fun x hx => by
          simp only [map_cons, cons_append, mem_cons, mem_append] at hx ⊢
          tauto)
        (fun id r hr => by
          have hrec := DatabaseIndexes.indexFields_record st.indexes ev offset id
          rw [show (st.step (.index ev offset)).indexes = (indexEvent st ev offset).indexes from rfl,
            NostrDB.indexEvent_indexes, hrec] at hr
          split at hr
          · next hid =>
            cases hr
            exact ⟨ev, mem_cons_self, hid.symm, hnew⟩
          · obtain ⟨x, hx, hid, hp⟩ := hplaced id r hr
            exact ⟨x, mem_cons_of_mem _ hx, hid, hp⟩)
    refine ⟨evs', fun x hx => ?_, hrep', hplaced'⟩
    rcases hsub x hx with hx | hx
    · exact .inl (mem_cons_of_mem _ hx)
    · rcases List.mem_cons.mp hx with rfl | hx
      · exact .inl mem_cons_self
      · exact .inr hx

variable {fb : FlatBuffers} {known : List Event}

theorem readsEvents_unindexed {db : NostrDB}
    {payloads : ShardId → List Bytes} (hindex : db.index = IndexState.empty)
    (hholds : db.storage.Holds payloads) (hopened : ∀ g, (db.storage.shards g).initialized = true)
    (hknown : ∀ g, ∀ payload ∈ payloads g, ∀ ev, fb.storedEvent payload = some ev → ev ∈ known) :
    db.ReadsEvents fb known := by
  refine ⟨payloads, [], ⟨hholds, ?_, ?_⟩, nofun, hknown, hopened⟩
  · rw [hindex]
    exact DatabaseIndexes.represents_new
  · rw [hindex]
    intro id record hrec
    cases hrec

theorem ShardedStorage.place_of_mem_contents {history : ShardId → List Bytes}
    {entry : ℕ × Bytes} (h : entry ∈ contents history fun _ => 0) :
    ∃ g i, (history g)[i]? = some entry.2 ∧ entry.1 = packOffset g (framePos (history g) i) := by
  obtain ⟨g, -, h⟩ := List.mem_flatMap.mp h
  obtain ⟨j, hj, rfl⟩ := List.mem_map.mp h
  rw [mem_range] at hj
  refine ⟨g, j, ?_, by rw [Nat.zero_add]⟩
  rw [getD_eq_getElem?_getD, Nat.zero_add, List.getElem?_eq_getElem (by omega),
    Option.getD_some]

/-- **A rebuilt index** points to what it was built from. -/
theorem readsEvents_rebuild (hdet : DeterminedIds known)
    (db : NostrDB) {payloads : ShardId → List Bytes} (hholds : db.storage.Holds payloads)
    (hwin : ∀ g, (db.storage.shards g).Window (payloads g) 0)
    (hopened : ∀ g, (db.storage.shards g).initialized = true)
    (hsmall : ∀ g, (frameLog (payloads g)).length < 2 ^ 56)
    (hknown : ∀ g, ∀ payload ∈ payloads g, ∀ ev, fb.storedEvent payload = some ev → ev ∈ known) :
    (db.rebuildIndexesFromStorage fb).ReadsEvents fb known := by
  obtain ⟨hlist, hget⟩ := ShardedStorage.read_loadEvents hwin hopened hsmall
  have hindex := NostrDB.rebuild_index fb db hlist hget
  have hops : ∀ op ∈ (ShardedStorage.contents payloads fun _ => 0).filterMap (indexOp fb),
      ∃ ev offset, op = .index ev offset ∧ ∃ g i bytes, (payloads g)[i]? = some bytes ∧
        offset = packOffset g (framePos (payloads g) i) ∧ fb.storedEvent bytes = some ev := by
    intro op hop
    obtain ⟨entry, hentry, hop⟩ := List.mem_filterMap.mp hop
    obtain ⟨ev, hev, rfl⟩ := Option.map_eq_some_iff.mp hop
    obtain ⟨g, i, hi, hoff⟩ := ShardedStorage.place_of_mem_contents hentry
    exact ⟨ev, entry.1, rfl, g, i, entry.2, hi, hoff, hev⟩
  have hevents : ∀ ev ∈ ((ShardedStorage.contents payloads fun _ => 0).filterMap
      (indexOp fb)).map IndexOp.event, ev ∈ known := by
    intro ev hev
    obtain ⟨op, hop, rfl⟩ := List.mem_map.mp hev
    obtain ⟨x, offset, rfl, g, i, bytes, hi, -, hx⟩ := hops op hop
    exact hknown g bytes (mem_of_getElem? hi) x hx
  obtain ⟨evs, hsub, hrep, hplaced⟩ := IndexState.run_placed _ hops
    (represents_preallocated ((ShardedStorage.contents payloads fun _ => 0).map Prod.snd
      |>.filterMap fb.storedEvent))
    (hdet.of_subset fun ev hev => hevents ev (by rwa [append_nil] at hev))
    (fun id r hr => by
      have hnone : ∃ ev ∈ ([] : List Event), ev.id = id :=
        ((represents_preallocated _).indexed id).mp ⟨r, hr⟩
      obtain ⟨ev, hev, -⟩ := hnone
      cases hev)
  refine ⟨payloads, evs, ⟨?_, ?_, ?_⟩, fun ev hev => ?_, hknown, ?_⟩
  · rw [NostrDB.rebuild_storage]
    exact hholds
  · rw [hindex]
    exact hrep
  · rw [hindex]
    intro id record hrec
    obtain ⟨ev, hev, hid, g, i, bytes, hi, hoff, hread⟩ := hplaced id record hrec
    exact ⟨g, i, bytes, hi, hoff, ev, hev, hid, hread⟩
  · rcases hsub ev hev with hev | hev
    · exact hevents ev hev
    · cases hev
  · rw [NostrDB.rebuild_storage]
    exact hopened

/-- **A message in the core**: it is refused, or stored and indexed. -/
theorem NostrDB.ReadsEvents.addWorkerMessageBytes (hempty : fb.RejectsEmpty)
    (hdet : DeterminedIds known) {db : NostrDB} (h : db.ReadsEvents fb known) {bytes : Bytes}
    (hbytes : ∀ ev, fb.storedEvent bytes = some ev → ev ∈ known) :
    (∃ e, db.addWorkerMessageBytes fb bytes = .error e) ∨
      ∃ db', db.addWorkerMessageBytes fb bytes = .ok db' ∧ db'.ReadsEvents fb known := by
  obtain ⟨history, evs, htracks, hevs, hhistory, hopened⟩ := h
  rw [NostrDB.addWorkerMessageBytes_eq]
  rcases hmsg : fb.storedMessage bytes with _ | msg
  · exact .inl ⟨_, rfl⟩
  · dsimp only
    rcases hstored : msg.storedEvent with _ | stored
    · exact .inr ⟨db, rfl, history, evs, htracks, hevs, hhistory, hopened⟩
    · have hread : fb.storedEvent bytes = some stored.event := by
        rw [FlatBuffers.storedEvent, hmsg]
        cases msg <;> cases hstored <;> rfl
      have hne : bytes ≠ [] := by
        rintro rfl
        rw [FlatBuffers.storedMessage, hempty.workerMessage, hempty.parsedEvent,
          hempty.nostrEvent] at hmsg
        cases hmsg
      have hnew := hbytes stored.event hread
      have hdet' : DeterminedIds (stored.event :: evs) :=
        hdet.of_subset (List.forall_mem_cons.mpr ⟨hnew, hevs⟩)
      rcases htracks.storeAndIndex
        (fun id bytes => ∃ ev ∈ stored.event :: evs, ev.id = id ∧ fb.storedEvent bytes = some ev)
        hdet' hne ⟨_, mem_cons_self, rfl, hread⟩
        (fun id b _ h => h.imp fun ev hev => ⟨mem_cons_of_mem _ hev.1, hev.2⟩) with
        ⟨e, he⟩ | ⟨db', hdb', htracks'⟩
      · exact .inl ⟨e, he⟩
      · refine .inr ⟨db', hdb', _, _, htracks', List.forall_mem_cons.mpr ⟨hnew, hevs⟩, ?_, ?_⟩
        · refine (Function.forall_update_iff history fun g payloads => ∀ payload ∈ payloads,
            ∀ ev, fb.storedEvent payload = some ev → ev ∈ known).mpr
            ⟨fun payload hp => ?_, fun g _ => hhistory g⟩
          rcases List.mem_append.mp hp with hp | hp
          · exact hhistory _ payload hp
          · rw [List.mem_singleton.mp hp]
            exact hbytes
        · -- adding an event does not close a ring
          unfold NostrDB.storeAndIndex at hdb'
          rcases htracks.holds.addEventForKind stored.event.kind.toNat hne with
            ⟨e, he⟩ | ⟨s, hs, -, hinit⟩
          · rw [he] at hdb'
            cases hdb'
          · rw [hs] at hdb'
            cases hdb'
            exact fun g => (hinit g).trans (hopened g)

theorem NostrDB.ReadsEvents.applyDeletions {db : NostrDB}
    (h : db.ReadsEvents fb known) (bytes : Bytes) :
    NostrDB.ReadsEvents fb known
      { db with index := (applyDeletionsFromBytes fb db.index bytes).1 } := by
  obtain ⟨history, evs, htracks, hevs, hhistory, hopened⟩ := h
  rw [applyDeletionsFromBytes_fst]
  rcases fb.wrappedEvent bytes with _ | ev
  · exact ⟨history, evs, htracks, hevs, hhistory, hopened⟩
  · exact ⟨history, evs, htracks.applyDeletions ev, hevs, hhistory, hopened⟩

/-! ### Blobs -/

/-- A blob is short, and the messages in it hold known events. -/
def SoundBlob (fb : FlatBuffers) (known : List Event) (bytes : Bytes) : Prop :=
  bytes.length ≤ 2 ^ 32 ∧
    ∀ payload ∈ unframe bytes, ∀ ev, fb.storedEvent payload = some ev → ev ∈ known

theorem soundBlob_nil (fb : FlatBuffers) (known : List Event) : SoundBlob fb known [] := by
  refine ⟨Nat.zero_le _, ?_⟩
  rw [unframe_nil]
  exact nofun

theorem soundBlob_marker (fb : FlatBuffers) (known : List Event) :
    SoundBlob fb known encryptedParseCacheVersion := by
  refine ⟨by decide, ?_⟩
  rw [unframe_of_takeFrame_none (by decide)]
  exact nofun

def SoundBlobs (fb : FlatBuffers) (known : List Event) (blobs : Map String Bytes) : Prop :=
  ∀ key, key ≠ tombstonesKey → ∀ bytes, blobs.lookup key = some bytes → SoundBlob fb known bytes

theorem SoundBlobs.insert {blobs : Map String Bytes}
    (h : SoundBlobs fb known blobs) {key : String} {bytes : Bytes}
    (hbytes : key ≠ tombstonesKey → SoundBlob fb known bytes) :
    SoundBlobs fb known (AList.insert key bytes blobs) := by
  intro key' hkey' bytes' hlookup
  obtain ⟨heq, rfl⟩ | ⟨-, hold⟩ := Map.lookup_insert_eq_some.mp hlookup
  · exact hbytes (heq ▸ hkey')
  · exact h key' hkey' bytes' hold

/-- The core is as it was, and the blobs are sound if they were. -/
def KeepsCore (fb : FlatBuffers) (known : List Event) (w w' : World) : Prop :=
  w'.store.core = w.store.core ∧ (SoundBlobs fb known w.blobs → SoundBlobs fb known w'.blobs)

section

variable {fb : FlatBuffers} {known : List Event} {fails : ℕ → Bool}

instance : Std.Refl (KeepsCore fb known) := ⟨fun _ => ⟨rfl, id⟩⟩

instance : IsTrans World (KeepsCore fb known) :=
  ⟨fun _ _ _ h h' => ⟨h'.1.trans h.1, fun hw => h'.2 (h.2 hw)⟩⟩

theorem keepsCore_get (key : String) :
    Fallible.Keeps (KeepsCore fb known) (Storage.get fails key) := by
  intro w
  unfold Storage.get
  split <;> exact ⟨rfl, id⟩

theorem keepsCore_put {key : String} {bytes : Bytes}
    (h : key ≠ tombstonesKey → SoundBlob fb known bytes) :
    Fallible.Keeps (KeepsCore fb known) (Storage.put fails key bytes) := by
  intro w
  unfold Storage.put
  split
  · exact ⟨rfl, id⟩
  · exact ⟨rfl, fun hw => hw.insert h⟩

variable {w : World} {maxBufferSize : ℕ} (shards : List ShardId)

theorem keepsCore_clearShards : ∀ foundOldData : Bool,
    Fallible.Keeps (KeepsCore fb known) (Storage.clearShards fails shards foundOldData) := by
  induction shards with
  | nil => exact fun _ => Fallible.keeps_pure _
  | cons g rest ih =>
    intro foundOldData
    refine Fallible.Keeps.bind (keepsCore_get _) fun stored => ?_
    split
    · exact Fallible.Keeps.bind (keepsCore_put fun _ => soundBlob_nil fb known) fun _ => ih true
    · exact ih foundOldData

theorem keepsCore_migrate :
    Fallible.Keeps (KeepsCore fb known) (Storage.migratePoisonedEncryptedCache fails) := by
  refine Fallible.Keeps.bind (keepsCore_get _) fun version => ?_
  split
  · exact Fallible.keeps_pure _
  · refine Fallible.Keeps.bind (keepsCore_clearShards _ _) fun found => ?_
    split
    · exact keepsCore_put fun _ => soundBlob_marker fb known
    · exact Fallible.keeps_pure _

theorem readShard_sound {g : ShardId} {w' : World} {stored : Option Bytes}
    (hw : SoundBlobs fb known w.blobs) (h : Storage.readShard fails g w = (w', .ok stored)) :
    w'.store.core = w.store.core ∧ w'.blobs = w.blobs ∧
      ∀ bytes, stored = some bytes → SoundBlob fb known bytes := by
  have hget : ∀ {key : String} {w w' : World} {stored : Option Bytes},
      Storage.get fails key w = (w', .ok stored) →
      w'.store.core = w.store.core ∧ w'.blobs = w.blobs ∧ stored = w.blobs.lookup key := by
    intro key w w' stored h
    unfold Storage.get at h
    split at h
    · cases h
    · cases h
      exact ⟨rfl, rfl, rfl⟩
  unfold Storage.readShard at h
  obtain ⟨w₁, stored₁, h₁, h⟩ := Fallible.bind_eq_ok.mp h
  obtain ⟨hcore₁, hblobs₁, rfl⟩ := hget h₁
  split at h
  · obtain ⟨hcore, hblobs, rfl⟩ := hget h
    refine ⟨hcore.trans hcore₁, hblobs.trans hblobs₁, fun bytes hbytes => ?_⟩
    rw [hblobs₁] at hbytes
    exact hw _ (by decide) bytes hbytes
  · cases h
    exact ⟨hcore₁, hblobs₁,
      fun bytes hbytes => hw _ (Storage.persistenceKey_ne_tombstonesKey g) bytes hbytes⟩

theorem readShards_sound : ∀ {shardBytes read : ShardId → Option Bytes}
    {w w' : World}, SoundBlobs fb known w.blobs →
    (∀ g bytes, shardBytes g = some bytes → SoundBlob fb known bytes) →
    Storage.readShards fails shards shardBytes w = (w', .ok read) →
    w'.store.core = w.store.core ∧ w'.blobs = w.blobs ∧
      ∀ g bytes, read g = some bytes → SoundBlob fb known bytes := by
  induction shards with
  | nil =>
    intro shardBytes read w w' _ hbytes h
    cases h
    exact ⟨rfl, rfl, hbytes⟩
  | cons g rest ih =>
    intro shardBytes read w w' hw hbytes h
    unfold Storage.readShards at h
    obtain ⟨w₁, stored, h₁, h⟩ := Fallible.bind_eq_ok.mp h
    obtain ⟨hcore₁, hblobs₁, hstored⟩ := readShard_sound hw h₁
    have hnext : ∀ shardBytes' : ShardId → Option Bytes,
        (∀ g bytes, shardBytes' g = some bytes → SoundBlob fb known bytes) →
        Storage.readShards fails rest shardBytes' w₁ = (w', .ok read) →
        w'.store.core = w.store.core ∧ w'.blobs = w.blobs ∧
          ∀ g bytes, read g = some bytes → SoundBlob fb known bytes := by
      intro shardBytes' hbytes' h
      obtain ⟨hcore, hblobs, hread⟩ := ih (by rwa [hblobs₁]) hbytes' h
      exact ⟨hcore.trans hcore₁, hblobs.trans hblobs₁, hread⟩
    rcases stored with _ | bytes
    · exact hnext _ hbytes h
    · dsimp only at h
      split at h
      · refine hnext _ (fun g' b hb => ?_) h
        by_cases hg : g' = g
        · subst hg
          rw [Function.update_self] at hb
          exact hstored b hb
        · rw [Function.update_of_ne hg] at hb
          exact hbytes g' b hb
      · exact hnext _ hbytes h

theorem keepsCore_readShards : ∀ shardBytes : ShardId → Option Bytes,
    Fallible.Keeps (KeepsCore fb known) (Storage.readShards fails shards shardBytes) := by
  induction shards with
  | nil => exact fun _ => Fallible.keeps_pure _
  | cons g rest ih =>
    intro shardBytes
    refine Fallible.Keeps.bind (Fallible.Keeps.bind (keepsCore_get _) fun stored => ?_)
      fun stored => ?_
    · split
      · exact keepsCore_get _
      · exact Fallible.keeps_pure _
    · split
      · split
        · exact ih _
        · exact ih _
      · exact ih _

/-! ### A storage in use -/

/-- The invariant of a storage in use: its records point to their events, and
so will those of a storage that is opened over its blobs. -/
structure Sound (fb : FlatBuffers) (known : List Event) (w : World) : Prop where
  core : w.store.core.ReadsEvents fb known
  blobs : SoundBlobs fb known w.blobs

theorem Sound.of_keepsCore {w' : World} (h : Sound fb known w) (hk : KeepsCore fb known w w') :
    Sound fb known w' :=
  ⟨by rw [hk.1]; exact h.core, hk.2 h.blobs⟩

theorem readsEvents_new (hcap : maxBufferSize + legacyDedicatedBytes ≤ 2 ^ 32) :
    ((NostrDB.new maxBufferSize).initializeDb fb).ReadsEvents fb known := by
  rw [NostrDB.initializeDb_new]
  have hholds := (ShardedStorage.holds_newDefault hcap).initializeStorage
  exact readsEvents_unindexed rfl hholds (fun _ => rfl) nofun

/-- **Loading shards** into a fresh core: the index is rebuilt when all of them
are accepted, and is still empty when one is refused. -/
theorem Sound.loadShards (hdet : DeterminedIds known)
    (hcap : maxBufferSize + legacyDedicatedBytes ≤ 2 ^ 32) (order : IterOrder ShardId)
    (h : Sound fb known w) (hcore : w.store.core = (NostrDB.new maxBufferSize).initializeDb fb)
    {read : ShardId → Option Bytes} (hread : ∀ g bytes, read g = some bytes → SoundBlob fb known bytes) :
    Sound fb known (Storage.loadShards fb order read w).1 := by
  unfold Storage.loadShards
  dsimp only
  split
  · exact h
  · have hshards := ShardedStorage.loadAllShards_cases read
      (order.order (ShardId.persistentIds.filter fun g => (read g).isSome)) w.store.core.storage
    generalize ShardedStorage.loadAllShards read w.store.core.storage
      (order.order (ShardId.persistentIds.filter fun g => (read g).isSome)) = loaded
      at hshards ⊢
    obtain ⟨s, result⟩ := loaded
    -- what each ring holds now: nothing, or the messages of its blob
    have hpayloads : ∀ g, ∃ payloads : List Bytes, (s.shards g).Window payloads 0 ∧
        (s.shards g).initialized = true ∧
        (s.shards g).maxBufferSize = shardCapacity maxBufferSize g ∧
        (frameLog payloads).length ≤ 2 ^ 32 ∧
        ∀ payload ∈ payloads, ∀ ev, fb.storedEvent payload = some ev → ev ∈ known := by
      intro g
      have hg := hshards g
      rw [hcore, NostrDB.initializeDb_new] at hg
      dsimp only at hg
      rcases hg with hg | ⟨bytes, hbytes, hlog, hst, hg⟩
      · rw [hg]
        exact ⟨[], (RingBuffer.window_new _).initializeStorage, rfl, rfl, Nat.zero_le _, nofun⟩
      · rw [hg]
        obtain ⟨hlen, hevents⟩ := hread g bytes hbytes
        exact ⟨unframe bytes, ⟨Nat.zero_le _, rfl, rfl, hst⟩, rfl, rfl, by rwa [hlog], hevents⟩
    choose payloads hwin hopened hmax hlen hevents using hpayloads
    have hholds : s.Holds payloads := by
      refine ⟨fun g => ⟨0, hwin g⟩, fun g => ?_, fun g => ?_⟩
      · rw [(hwin g).buffer, drop_zero]
        exact hlen g
      · rw [hmax g]
        exact (shardCapacity_le maxBufferSize g).trans hcap
    rcases result with e | ⟨⟩
    · refine ⟨readsEvents_unindexed ?_ hholds hopened hevents, h.blobs⟩
      show w.store.core.index = _
      rw [hcore, NostrDB.initializeDb_new]
    · exact ⟨readsEvents_rebuild hdet _ hholds hwin hopened
        (fun g => lt_of_le_of_lt (hlen g) (by omega)) hevents, h.blobs⟩

theorem NostrDB.ReadsEvents.replay (entries : List Bytes) : ∀ {db : NostrDB} (ids : Finset String),
    db.ReadsEvents fb known →
    NostrDB.ReadsEvents fb known { db with index := (entries.foldl (fun acc entry =>
      let (st, id) := applyDeletionsFromBytes fb acc.1 entry
      (st, id.elim acc.2 fun id => insert id acc.2)) (db.index, ids)).1 } := by
  induction entries with
  | nil => exact fun _ h => h
  | cons entry rest ih =>
    intro db ids h
    exact ih _ (h.applyDeletions entry)

theorem Sound.loadTombstones (h : Sound fb known w) :
    Sound fb known (Storage.loadTombstones fails fb w).1 := by
  have hget : KeepsCore fb known w (Storage.get fails tombstonesKey w).1 := keepsCore_get _ w
  unfold Storage.loadTombstones
  rcases hg : Storage.get fails tombstonesKey w with ⟨w₁, e | stored⟩ <;> rw [hg] at hget
  · rw [Fallible.bind_error hg]
    exact h.of_keepsCore hget
  · rw [Fallible.bind_ok hg]
    have h₁ := h.of_keepsCore hget
    rcases stored with _ | bytes
    · exact h₁
    · exact ⟨h₁.core.replay (unframe bytes) w₁.store.walIds, h₁.blobs⟩

/-- **A storage that is opened**, over any sound blobs and whatever fails. -/
theorem sound_initializeStorage (hdet : DeterminedIds known)
    (hcap : maxBufferSize + legacyDedicatedBytes ≤ 2 ^ 32) (order : IterOrder ShardId) (now : ℕ)
    (hblobs : SoundBlobs fb known w.blobs) :
    Sound fb known (Storage.initializeStorage fails fb order now
      { w with store := PersistentStorage.new maxBufferSize }).1 := by
  obtain ⟨w₁, hw₁⟩ : ∃ w₁ : World, w₁ = { w with
      store := { PersistentStorage.new maxBufferSize with
        core := (NostrDB.new maxBufferSize).initializeDb fb } } := ⟨_, rfl⟩
  have hcore₁ : w₁.store.core = (NostrDB.new maxBufferSize).initializeDb fb := by rw [hw₁]
  have hsound₁ : Sound fb known w₁ := by
    refine ⟨?_, by rw [hw₁]; exact hblobs⟩
    rw [hcore₁]
    exact readsEvents_new hcap
  unfold Storage.initializeStorage
  rw [Fallible.bind_ok (show Fallible.change _ _ = (w₁, .ok ()) by rw [hw₁]; rfl)]
  have hhydrate : Sound fb known (Storage.hydrateFromBlobStore fails fb order w₁).1 := by
    unfold Storage.hydrateFromBlobStore
    have hmigrate : KeepsCore fb known w₁ (Storage.migratePoisonedEncryptedCache fails w₁).1 :=
      keepsCore_migrate w₁
    rcases hm : Storage.migratePoisonedEncryptedCache fails w₁ with ⟨w₂, e | ⟨⟩⟩ <;>
      rw [hm] at hmigrate
    · rw [Fallible.bind_error hm]
      exact hsound₁.of_keepsCore hmigrate
    · rw [Fallible.bind_ok hm]
      have hsound₂ := hsound₁.of_keepsCore hmigrate
      have hkeeps : KeepsCore fb known w₂
          (Storage.readShards fails ShardId.persistentIds (fun _ => none) w₂).1 :=
        keepsCore_readShards _ _ w₂
      rcases hr : Storage.readShards fails ShardId.persistentIds (fun _ => none) w₂ with
        ⟨w₃, e | read⟩ <;> rw [hr] at hkeeps
      · rw [Fallible.bind_error hr]
        exact hsound₂.of_keepsCore hkeeps
      · rw [Fallible.bind_ok hr]
        obtain ⟨hcore₃, -, hread⟩ := readShards_sound _ hsound₂.blobs (fun _ _ h => by cases h) hr
        exact (hsound₂.of_keepsCore hkeeps).loadShards hdet hcap order
          (hcore₃.trans (hmigrate.1.trans hcore₁)) hread
  rcases hh : Storage.hydrateFromBlobStore fails fb order w₁ with ⟨w₂, e | ⟨⟩⟩ <;>
    rw [hh] at hhydrate
  · rw [Fallible.bind_error hh]
    exact hhydrate
  · rw [Fallible.bind_ok hh]
    have hload : Sound fb known (Storage.loadTombstones fails fb w₂).1 := hhydrate.loadTombstones
    rcases ht : Storage.loadTombstones fails fb w₂ with ⟨w₃, e | ⟨⟩⟩ <;> rw [ht] at hload
    · rw [Fallible.bind_error ht]
      exact hload
    · rw [Fallible.bind_ok ht]
      exact ⟨hload.core, hload.blobs⟩

/-- **A sync**, whatever fails: what it writes are messages of the rings. -/
theorem Sound.sync (h : Sound fb known w) (order : IterOrder ShardId) :
    Sound fb known (Storage.syncToBlobStore fails order w).1 := by
  obtain ⟨history, evs, htracks, -, hhistory, -⟩ := h.core
  have hsaved : ∀ g bytes, w.store.core.storage.saveAllShards g = some bytes →
      SoundBlob fb known bytes := by
    intro g bytes hbytes
    unfold ShardedStorage.saveAllShards at hbytes
    split at hbytes
    · cases hbytes
    · split at hbytes
      · cases hbytes
      · cases hbytes
        obtain ⟨k, hwin⟩ := htracks.holds.window g
        refine ⟨htracks.holds.length_le g, ?_⟩
        rw [RingBuffer.saveToBytes, hwin.buffer, unframe_frameLog fun payload hp =>
          (hwin.storable payload (mem_of_mem_drop hp)).2]
        exact fun payload hp => hhistory g payload (mem_of_mem_drop hp)
  have hputs : ∀ shards : List ShardId, Fallible.Keeps (KeepsCore fb known)
      (Storage.putShards fails w.store.core.storage.saveAllShards shards) := by
    intro shards
    induction shards with
    | nil => exact Fallible.keeps_pure _
    | cons g rest ih =>
      unfold Storage.putShards
      split
      · exact ih
      · next bytes hbytes =>
        exact Fallible.Keeps.bind (keepsCore_put fun _ => hsaved g bytes hbytes) fun _ => ih
  refine h.of_keepsCore ?_
  unfold Storage.syncToBlobStore
  rw [Fallible.bind_ok (show Fallible.read w = (w, .ok w) from rfl)]
  exact Fallible.Keeps.bind (hputs _) (fun _ => keepsCore_put fun _ => soundBlob_marker fb known) w

/-- **A message**, whatever fails. -/
theorem Sound.persist (hempty : fb.RejectsEmpty) (hdet : DeterminedIds known)
    (h : Sound fb known w) (order : IterOrder ShardId) (now now' : ℕ) {bytes : Bytes}
    (hbytes : ∀ ev, fb.storedEvent bytes = some ev → ev ∈ known) :
    Sound fb known (Storage.persist fails fb order now now' bytes w).1 := by
  unfold Storage.persist
  have hcore : Sound fb known (Storage.corePersist fb bytes w).1 := by
    unfold Storage.corePersist
    rcases h.core.addWorkerMessageBytes hempty hdet hbytes with ⟨e, he⟩ | ⟨db, hdb, hreads⟩
    · rw [he]
      exact h
    · rw [hdb]
      exact ⟨hreads, h.blobs⟩
  rcases hc : Storage.corePersist fb bytes w with ⟨w₁, e | ⟨⟩⟩ <;> rw [hc] at hcore
  · rw [Fallible.bind_error hc]
    exact hcore
  · rw [Fallible.bind_ok hc]
    have hsync : ∀ w : World, Sound fb known w →
        Sound fb known (Storage.syncIfDue fails order now now' w).1 := by
      intro w hw
      unfold Storage.syncIfDue
      rw [Fallible.bind_ok (show Fallible.read w = (w, .ok w) from rfl)]
      split
      · have hs : Sound fb known (Storage.syncToBlobStore fails order w).1 := hw.sync order
        rcases hsync : Storage.syncToBlobStore fails order w with ⟨w', e | ⟨⟩⟩ <;>
          rw [hsync] at hs
        · rw [Fallible.bind_error hsync]
          exact hs
        · rw [Fallible.bind_ok hsync]
          exact ⟨hs.core, hs.blobs⟩
      · exact hw
    rcases persistDeletion_cases fb fails bytes w₁ with
      ⟨hnone, -⟩ | ⟨id, w₂, -, -, hstore, ⟨e, hput, hblobs⟩ | ⟨hput, hblobs⟩⟩
    · rw [Fallible.bind_ok hnone]
      exact hsync w₁ hcore
    · rw [Fallible.bind_error hput]
      refine ⟨?_, by rw [hblobs]; exact hcore.blobs⟩
      rw [hstore, appendWal_core]
      exact hcore.core
    · rw [Fallible.bind_ok hput]
      refine hsync w₂ ⟨?_, ?_⟩
      · rw [hstore, appendWal_core]
        exact hcore.core
      · rw [hblobs]
        exact hcore.blobs.insert fun hne => absurd rfl hne

/-- **Every state of a storage in use**, whatever fails. -/
theorem Sound.run (hempty : fb.RejectsEmpty) (hdet : DeterminedIds known)
    (hcap : maxBufferSize + legacyDedicatedBytes ≤ 2 ^ 32) (session : List SessionStep) :
    ∀ {w : World}, Sound fb known w →
    (∀ bytes ∈ session.filterMap SessionStep.message, ∀ ev, fb.storedEvent bytes = some ev →
      ev ∈ known) →
    Sound fb known (w.run fb maxBufferSize fails (session.flatMap SessionStep.steps)) := by
  induction session with
  | nil => exact fun h _ => h
  | cons step rest ih =>
    intro w h hknown
    rw [flatMap_cons, World.run, foldl_append]
    refine ih ?_ fun bytes hbytes => ?_
    · cases step with
      | persist order now now' bytes =>
        exact h.persist hempty hdet order now now'
          (hknown bytes (List.mem_filterMap.mpr ⟨_, mem_cons_self, rfl⟩))
      | sync order => exact h.sync order
      | reopen order now => exact sound_initializeStorage hdet hcap order now h.blobs
    · obtain ⟨s, hs, hmsg⟩ := List.mem_filterMap.mp hbytes
      exact hknown bytes (List.mem_filterMap.mpr ⟨s, mem_cons_of_mem _ hs, hmsg⟩)

end

end Nipworker
