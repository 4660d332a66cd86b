/-
Snapshots of the shards, while no blob operation fails.
-/
import Nipworker.Storage.Persistent
import Nipworker.Storage.Rebuild

namespace Nipworker

open List

def neverFails : ℕ → Bool := fun _ => false

def World.snapshot (w : World) (g : ShardId) : Option Bytes :=
  w.blobs.lookup (g.persistenceKey.getD "")

namespace ShardId

theorem mem_persistentIds {g : ShardId} : g ∈ persistentIds ↔ g.isPersistent = true := by
  cases g <;> decide

theorem persistenceKey_inj {g g' : ShardId} (h : g.persistenceKey.getD "" = g'.persistenceKey.getD "") :
    g = g' := by
  revert h
  cases g <;> cases g' <;> decide

theorem persistenceKey_ne_marker (g : ShardId) :
    g.persistenceKey.getD "" ≠ encryptedParseCacheVersionKey := by
  cases g <;> decide

theorem persistenceKey_ne_legacy (g : ShardId) : g.persistenceKey.getD "" ≠ "shard:kind10002" := by
  cases g <;> decide

end ShardId

namespace Storage

theorem get_neverFails (key : String) (w : World) :
    get neverFails key w = ({ w with ops := w.ops + 1 }, .ok (w.blobs.lookup key)) := rfl

theorem put_neverFails (key : String) (bytes : Bytes) (w : World) :
    put neverFails key bytes w
      = ({ w with ops := w.ops + 1, blobs := AList.insert key bytes w.blobs }, .ok ()) := rfl

/-! ### Writing -/

theorem putShards_spec (shardBytes : ShardId → Option Bytes) (shards : List ShardId)
    (hsome : ∀ g ∈ shards, (shardBytes g).isSome = true) : ∀ w : World,
    ∃ w', putShards neverFails shardBytes shards w = (w', .ok ()) ∧ w'.store = w.store ∧
      (∀ g, w'.snapshot g = if g ∈ shards then shardBytes g else w.snapshot g) ∧
      ∀ key, (∀ g : ShardId, key ≠ g.persistenceKey.getD "") →
        w'.blobs.lookup key = w.blobs.lookup key := by
  induction shards with
  | nil => exact fun w => ⟨w, rfl, rfl, fun g => rfl, fun _ _ => rfl⟩
  | cons g rest ih =>
    intro w
    obtain ⟨bytes, hbytes⟩ := Option.isSome_iff_exists.mp (hsome g mem_cons_self)
    obtain ⟨w', hw', hstore, hsnap, hother⟩ := ih (fun g' hg' => hsome g' (mem_cons_of_mem _ hg'))
      { w with ops := w.ops + 1, blobs := AList.insert (g.persistenceKey.getD "") bytes w.blobs }
    refine ⟨w', ?_, hstore, fun g' => ?_, fun key hkey => ?_⟩
    · unfold putShards
      rw [hbytes]
      dsimp only
      rw [Fallible.bind_ok (put_neverFails _ _ _), hw']
    · rw [hsnap, World.snapshot, Map.lookup_insert_ite]
      by_cases hrest : g' ∈ rest
      · rw [if_pos hrest, if_pos (mem_cons_of_mem _ hrest)]
      · rw [if_neg hrest]
        by_cases hg : g' = g
        · rw [hg, if_pos rfl, if_pos mem_cons_self, hbytes]
        · rw [if_neg fun h => hg (ShardId.persistenceKey_inj h), if_neg]
          · rfl
          · rw [mem_cons]
            exact fun h => h.elim hg hrest
    · rw [hother key hkey, Map.lookup_insert_ite, if_neg (hkey g)]

/-- **A sync** writes every shard that holds anything and the version marker,
and nothing else. -/
theorem sync_spec (order : IterOrder ShardId) (w : World) :
    ∃ w', syncToBlobStore neverFails order w = (w', .ok ()) ∧ w'.store = w.store ∧
      (∀ g, w'.snapshot g
        = if g.isPersistent = true ∧ (w.store.core.storage.shards g).buffer ≠ [] then
            some (w.store.core.storage.shards g).buffer else w.snapshot g) ∧
      w'.blobs.lookup encryptedParseCacheVersionKey = some encryptedParseCacheVersion ∧
      ∀ key, key ≠ encryptedParseCacheVersionKey →
        (∀ g : ShardId, key ≠ g.persistenceKey.getD "") →
        w'.blobs.lookup key = w.blobs.lookup key := by
  have hmem : ∀ g, g ∈ order.order (ShardId.persistentIds.filter fun g =>
      (w.store.core.storage.saveAllShards g).isSome) ↔
      g.isPersistent = true ∧ (w.store.core.storage.saveAllShards g).isSome = true := by
    intro g
    rw [(order.perm _).mem_iff, mem_filter, ShardId.mem_persistentIds]
  obtain ⟨w₁, hw₁, hstore, hsnap, hother⟩ := putShards_spec w.store.core.storage.saveAllShards _
    (fun g hg => ((hmem g).mp hg).2) w
  refine ⟨{ w₁ with
    ops := w₁.ops + 1
    blobs := AList.insert encryptedParseCacheVersionKey encryptedParseCacheVersion w₁.blobs },
    ?_, hstore, ?_, AList.lookup_insert _, ?_⟩
  · unfold syncToBlobStore
    rw [Fallible.bind_ok (show Fallible.read w = (w, .ok w) from rfl), Fallible.bind_ok hw₁,
      put_neverFails]
  · intro g
    show AList.lookup _ _ = _
    rw [Map.lookup_insert_ite, if_neg (ShardId.persistenceKey_ne_marker g)]
    have hsave : w.store.core.storage.saveAllShards g
        = if g.isPersistent = true ∧ (w.store.core.storage.shards g).buffer ≠ [] then
            some (w.store.core.storage.shards g).buffer else none := by
      unfold ShardedStorage.saveAllShards RingBuffer.saveToBytes
      by_cases hg : g.isPersistent = true <;>
        by_cases hempty : (w.store.core.storage.shards g).buffer = [] <;> simp [hg, hempty]
    refine (hsnap g).trans ?_
    by_cases hg : g.isPersistent = true ∧ (w.store.core.storage.shards g).buffer ≠ []
    · rw [if_pos hg] at hsave ⊢
      rw [if_pos ((hmem g).mpr ⟨hg.1, by rw [hsave]; rfl⟩), hsave]
    · rw [if_neg hg] at hsave ⊢
      rw [if_neg fun h => ?_]
      have hsome := ((hmem g).mp h).2
      rw [hsave] at hsome
      cases hsome
  · intro key hmarker hkey
    show AList.lookup _ _ = _
    rw [Map.lookup_insert_ite, if_neg hmarker, hother key hkey]

/-! ### Reading -/

theorem clearShards_spec (shards : List ShardId) (foundOldData : Bool) : ∀ w : World,
    (∀ g ∈ shards, w.snapshot g = none) →
    ∃ w', clearShards neverFails shards foundOldData w = (w', .ok foundOldData) ∧
      w'.store = w.store ∧ w'.blobs = w.blobs := by
  induction shards with
  | nil => exact fun w _ => ⟨w, rfl, rfl, rfl⟩
  | cons g rest ih =>
    intro w hnone
    have hg : w.blobs.lookup (g.persistenceKey.getD "") = none := hnone g mem_cons_self
    obtain ⟨w', hw', hstore, hblobs⟩ := ih { w with ops := w.ops + 1 }
      fun g' hg' => hnone g' (mem_cons_of_mem _ hg')
    refine ⟨w', ?_, hstore, hblobs⟩
    unfold clearShards
    rw [Fallible.bind_ok (get_neverFails _ _), hg]
    exact hw'

theorem migrate_spec (w : World)
    (h : w.blobs.lookup encryptedParseCacheVersionKey = some encryptedParseCacheVersion ∨
      ∀ g, w.snapshot g = none) :
    ∃ w', migratePoisonedEncryptedCache neverFails w = (w', .ok ()) ∧ w'.store = w.store ∧
      w'.blobs = w.blobs := by
  unfold migratePoisonedEncryptedCache
  rw [Fallible.bind_ok (get_neverFails _ _)]
  by_cases hversion : w.blobs.lookup encryptedParseCacheVersionKey
      = some encryptedParseCacheVersion
  · rw [if_pos hversion]
    exact ⟨_, rfl, rfl, rfl⟩
  · rw [if_neg hversion]
    obtain ⟨w', hw', hstore, hblobs⟩ :=
      clearShards_spec [.kind4, .kind7375, .replaceable, .regular] false
        { w with ops := w.ops + 1 } fun g _ => h.resolve_left hversion g
    rw [Fallible.bind_ok hw', if_neg (by decide)]
    exact ⟨w', rfl, hstore, hblobs⟩

theorem readShard_spec (g : ShardId) (w : World)
    (hlegacy : w.blobs.lookup "shard:kind10002" = none) :
    ∃ w', readShard neverFails g w = (w', .ok (w.snapshot g)) ∧ w'.store = w.store ∧
      w'.blobs = w.blobs := by
  unfold readShard
  rw [Fallible.bind_ok (get_neverFails _ _)]
  by_cases hreplaceable : w.blobs.lookup (g.persistenceKey.getD "") = none ∧ g = .replaceable
  · rw [if_pos hreplaceable, get_neverFails]
    dsimp only
    rw [hlegacy, World.snapshot, hreplaceable.1]
    exact ⟨_, rfl, rfl, rfl⟩
  · rw [if_neg hreplaceable]
    exact ⟨_, rfl, rfl, rfl⟩

theorem readShards_spec (shards : List ShardId) : ∀ (shardBytes : ShardId → Option Bytes)
    (w : World), w.blobs.lookup "shard:kind10002" = none → (∀ g, w.snapshot g ≠ some []) →
    ∃ w' read, readShards neverFails shards shardBytes w = (w', .ok read) ∧
      w'.store = w.store ∧ w'.blobs = w.blobs ∧
      ∀ g, read g = if g ∈ shards then (w.snapshot g).or (shardBytes g) else shardBytes g := by
  induction shards with
  | nil => exact fun shardBytes w _ _ => ⟨w, shardBytes, rfl, rfl, rfl, fun g => rfl⟩
  | cons g rest ih =>
    intro shardBytes w hlegacy hne
    obtain ⟨w₁, hw₁, hstore₁, hblobs₁⟩ := readShard_spec g w hlegacy
    have hsnap₁ : w₁.snapshot = w.snapshot := by
      funext g'
      rw [World.snapshot, hblobs₁, World.snapshot]
    unfold readShards
    rw [Fallible.bind_ok hw₁]
    have hrest := ih (Function.update shardBytes g ((w.snapshot g).or (shardBytes g))) w₁
      (by rw [hblobs₁, hlegacy]) (by rwa [hsnap₁])
    obtain ⟨w', read, hread, hstore, hblobs, hspec⟩ := hrest
    refine ⟨w', read, ?_, hstore.trans hstore₁, hblobs.trans hblobs₁, fun g' => ?_⟩
    · rcases hstored : w.snapshot g with _ | bytes <;> rw [hstored] at hread
      · rw [Option.none_or, Function.update_eq_self] at hread
        exact hread
      · have hbytes : bytes ≠ [] := by
          rintro rfl
          exact hne g hstored
        dsimp only
        rw [if_pos hbytes]
        exact hread
    · rw [hspec, hsnap₁]
      by_cases hg : g' = g
      · subst hg
        rw [Function.update_self, if_pos mem_cons_self]
        split
        · rw [← Option.or_assoc, Option.or_self]
        · rfl
      · rw [Function.update_of_ne hg]
        by_cases hmem : g' ∈ rest
        · rw [if_pos hmem, if_pos (mem_cons_of_mem _ hmem)]
        · rw [if_neg hmem, if_neg]
          rw [mem_cons]
          exact fun h => h.elim hg hmem

end Storage

def RingBuffer.reloaded (r : RingBuffer) (payloads : List Bytes) : RingBuffer :=
  { r with buffer := frameLog payloads, headOffset := 0 }

theorem ShardedStorage.loadAllShards_spec (shardBytes : ShardId → Option Bytes)
    (payloads : ShardId → List Bytes)
    (hst : ∀ g, ∀ payload ∈ payloads g, RingBuffer.Storable payload) (shards : List ShardId)
    (hshards : ∀ g ∈ shards, g.isPersistent = true ∧ shardBytes g = some (frameLog (payloads g))) :
    ∀ s : ShardedStorage, ∃ s', loadAllShards shardBytes s shards = (s', .ok ()) ∧
      ∀ g, s'.shards g
        = if g ∈ shards then (s.shards g).reloaded (payloads g) else s.shards g := by
  induction shards with
  | nil => exact fun s => ⟨s, rfl, fun g => rfl⟩
  | cons g rest ih =>
    intro s
    obtain ⟨hpersistent, hbytes⟩ := hshards g mem_cons_self
    have hload : loadShard shardBytes s g
        = .ok ⟨Function.update s.shards g ((s.shards g).reloaded (payloads g))⟩ := by
      unfold loadShard
      rw [hbytes]
      dsimp only
      rw [if_neg (by rw [hpersistent]; decide), RingBuffer.loadFromBytes,
        RingBuffer.validateLog_frameLog _ (hst g)]
      rfl
    obtain ⟨s', hs', hspec⟩ := ih (fun g' hg' => hshards g' (mem_cons_of_mem _ hg'))
      ⟨Function.update s.shards g ((s.shards g).reloaded (payloads g))⟩
    refine ⟨s', ?_, fun g' => ?_⟩
    · unfold loadAllShards
      rw [hload]
      exact hs'
    · rw [hspec]
      dsimp only
      by_cases hg : g' = g
      · subst hg
        rw [Function.update_self, if_pos mem_cons_self]
        split <;> rfl
      · rw [Function.update_of_ne hg]
        by_cases hmem : g' ∈ rest
        · rw [if_pos hmem, if_pos (mem_cons_of_mem _ hmem)]
        · rw [if_neg hmem, if_neg]
          rw [mem_cons]
          exact fun h => h.elim hg hmem

/-! ### Opening a storage over snapshots -/

/-- The blobs are snapshots of these messages: a shard without any has no blob,
and the marker stands wherever there is a snapshot. -/
structure World.Snapshots (w : World) (payloads : ShardId → List Bytes) : Prop where
  snapshot : ∀ g, w.snapshot g = if payloads g = [] then none else some (frameLog (payloads g))
  storable : ∀ g, ∀ payload ∈ payloads g, RingBuffer.Storable payload
  persistent : ∀ g, g.isPersistent = false → payloads g = []
  legacy : w.blobs.lookup "shard:kind10002" = none
  marker : w.blobs.lookup encryptedParseCacheVersionKey = some encryptedParseCacheVersion ∨
    ∀ g, payloads g = []

variable {w : World} {payloads : ShardId → List Bytes}

theorem World.Snapshots.congr {w' : World}
    (h : w.Snapshots payloads) (hblobs : w'.blobs = w.blobs) : w'.Snapshots payloads := by
  refine ⟨fun g => ?_, h.storable, h.persistent, by rw [hblobs]; exact h.legacy,
    by rw [hblobs]; exact h.marker⟩
  rw [World.snapshot, hblobs]
  exact h.snapshot g

theorem World.Snapshots.of_insert_tombstones {w' : World} (h : w.Snapshots payloads) {wal : Bytes}
    (hblobs : w'.blobs = AList.insert tombstonesKey wal w.blobs) : w'.Snapshots payloads := by
  refine ⟨fun g => ?_, h.storable, h.persistent, ?_, ?_⟩
  · rw [World.snapshot, hblobs, Map.lookup_insert_ite,
      if_neg (Storage.persistenceKey_ne_tombstonesKey g)]
    exact h.snapshot g
  · rw [hblobs, Map.lookup_insert_ite, if_neg (by decide), h.legacy]
  · rw [hblobs, Map.lookup_insert_ite, if_neg (by decide)]
    exact h.marker

theorem World.Snapshots.ne_empty
    (h : w.Snapshots payloads) (g : ShardId) : w.snapshot g ≠ some [] := by
  rw [h.snapshot]
  split
  · exact nofun
  · next hne =>
    intro hnil
    exact hne (frameLog_eq_nil_iff.mp (Option.some.inj hnil))

theorem World.Snapshots.sync (h : w.Snapshots payloads)
    {history : ShardId → List Bytes} {k : ShardId → ℕ}
    (hwin : ∀ g, (w.store.core.storage.shards g).Window (history g) (k g))
    (order : IterOrder ShardId) :
    ∃ w', Storage.syncToBlobStore neverFails order w = (w', .ok ()) ∧ w'.store = w.store ∧
      w'.Snapshots fun g =>
        if g.isPersistent = true ∧ (history g).drop (k g) ≠ [] then (history g).drop (k g)
        else payloads g := by
  obtain ⟨w', hsync, hstore, hsnap, hmarker, hother⟩ := Storage.sync_spec order w
  refine ⟨w', hsync, hstore, ?_⟩
  have hbuffer : ∀ g, (w.store.core.storage.shards g).buffer ≠ [] ↔ (history g).drop (k g) ≠ [] := by
    intro g
    rw [(hwin g).buffer, Ne, frameLog_eq_nil_iff]
  refine ⟨fun g => ?_, fun g => ?_, fun g hg => ?_, ?_, .inl hmarker⟩
  · rw [hsnap]
    by_cases hg : g.isPersistent = true ∧ (history g).drop (k g) ≠ []
    · rw [if_pos hg, if_pos ⟨hg.1, (hbuffer g).mpr hg.2⟩, if_neg hg.2, (hwin g).buffer]
    · rw [if_neg hg, if_neg fun hb => hg ⟨hb.1, (hbuffer g).mp hb.2⟩, h.snapshot]
  · split
    · exact fun payload hp => (hwin g).storable payload (mem_of_mem_drop hp)
    · exact h.storable g
  · rw [if_neg (by rw [hg]; simp), h.persistent g hg]
  · rw [hother _ (by decide) fun g => (ShardId.persistenceKey_ne_legacy g).symm]
    exact h.legacy

/-- The storage holds these messages and has indexed them one by one, over
nothing but allocated sets. -/
structure NostrDB.Reads (fb : FlatBuffers) (db : NostrDB) (payloads : ShardId → List Bytes) :
    Prop where
  window : ∀ g, (db.storage.shards g).Window (payloads g) 0
  opened : ∀ g, (db.storage.shards g).initialized = true
  index : ∃ evs, db.index = (preallocated evs).run
    ((ShardedStorage.contents payloads fun _ => 0).filterMap (indexOp fb))

/-- **A storage that is opened over snapshots** reads them back. -/
theorem Storage.hydrate_spec (fb : FlatBuffers) (maxBufferSize : ℕ) (order : IterOrder ShardId)
    (h : w.Snapshots payloads) (hcore : w.store.core = (NostrDB.new maxBufferSize).initializeDb fb)
    (hsmall : ∀ g, (frameLog (payloads g)).length < 2 ^ 56) :
    ∃ w', hydrateFromBlobStore neverFails fb order w = (w', .ok ()) ∧ w'.blobs = w.blobs ∧
      w'.store.core.Reads fb payloads ∧
      ∀ g, (w'.store.core.storage.shards g).maxBufferSize = shardCapacity maxBufferSize g := by
  rw [NostrDB.initializeDb_new] at hcore
  obtain ⟨w₁, hw₁, hstore₁, hblobs₁⟩ := migrate_spec w (h.marker.imp_right fun hnil g => by
    rw [h.snapshot, if_pos (hnil g)])
  obtain ⟨w₂, read, hread, hstore₂, hblobs₂, hspec⟩ := readShards_spec ShardId.persistentIds
    (fun _ => none) w₁ (by rw [hblobs₁, h.legacy]) (h.congr hblobs₁).ne_empty
  have hread' : ∀ g, read g = if payloads g = [] then none else some (frameLog (payloads g)) := by
    intro g
    rw [hspec, Option.or_none, (h.congr hblobs₁).snapshot g, ite_eq_left_iff,
      ShardId.mem_persistentIds]
    intro hg
    rw [if_pos (h.persistent g (Bool.eq_false_iff.mpr hg))]
  have hmem : ∀ g, g ∈ ShardId.persistentIds.filter (fun g => (read g).isSome) ↔
      payloads g ≠ [] := by
    intro g
    rw [mem_filter, ShardId.mem_persistentIds, hread']
    constructor
    · rintro ⟨-, hsome⟩ hnil
      rw [if_pos hnil] at hsome
      cases hsome
    · intro hne
      rw [if_neg hne]
      refine ⟨?_, rfl⟩
      by_contra hg
      exact hne (h.persistent g (Bool.eq_false_iff.mpr hg))
  unfold hydrateFromBlobStore
  rw [Fallible.bind_ok hw₁, Fallible.bind_ok hread]
  unfold loadShards
  dsimp only
  have hcore₂ : w₂.store.core = w.store.core := by rw [hstore₂, hstore₁]
  by_cases hkeys : ShardId.persistentIds.filter (fun g => (read g).isSome) = []
  · -- nothing to load: the fresh database is what the empty snapshots describe
    rw [if_pos hkeys]
    have hnil : ∀ g, payloads g = [] := by
      intro g
      by_contra hne
      have := (hmem g).mpr hne
      rw [hkeys] at this
      cases this
    refine ⟨w₂, rfl, hblobs₂.trans hblobs₁, ?_, ?_⟩
    · rw [hcore₂, hcore]
      refine ⟨fun g => ?_, fun g => rfl, [], ?_⟩
      · rw [hnil g]
        exact (RingBuffer.window_new _).initializeStorage
      · rw [ShardedStorage.contents_nil hnil]
        rfl
    · intro g
      rw [hcore₂, hcore]
      rfl
  · rw [if_neg hkeys]
    obtain ⟨s, hload, hshards⟩ := ShardedStorage.loadAllShards_spec read payloads h.storable
      (order.order (ShardId.persistentIds.filter fun g => (read g).isSome))
      (fun g hg => by
        rw [(order.perm _).mem_iff] at hg
        have hne := (hmem g).mp hg
        rw [mem_filter, ShardId.mem_persistentIds] at hg
        exact ⟨hg.1, by rw [hread', if_neg hne]⟩)
      w₂.store.core.storage
    rw [hload]
    dsimp only
    have hwin : ∀ g, (s.shards g).Window (payloads g) 0 ∧ (s.shards g).initialized = true ∧
        (s.shards g).maxBufferSize = shardCapacity maxBufferSize g := by
      intro g
      rw [hshards, hcore₂, hcore]
      by_cases hnil : payloads g = []
      · rw [if_neg fun hg => (hmem g).mp ((order.perm _).mem_iff.mp hg) hnil, hnil]
        exact ⟨(RingBuffer.window_new _).initializeStorage, rfl, rfl⟩
      · rw [if_pos ((order.perm _).mem_iff.mpr ((hmem g).mpr hnil))]
        exact ⟨⟨Nat.zero_le _, rfl, rfl, h.storable g⟩, rfl, rfl⟩
    obtain ⟨hlist, hget⟩ := ShardedStorage.read_loadEvents (fun g => (hwin g).1)
      (fun g => (hwin g).2.1) hsmall
    refine ⟨_, rfl, hblobs₂.trans hblobs₁, ?_, ?_⟩
    · refine ⟨fun g => ?_, fun g => ?_, _, NostrDB.rebuild_index fb _ hlist hget⟩
      · rw [NostrDB.rebuild_storage]
        exact (hwin g).1
      · rw [NostrDB.rebuild_storage]
        exact (hwin g).2.1
    · intro g
      rw [NostrDB.rebuild_storage]
      exact (hwin g).2.2

end Nipworker
