/-
The two storages of a native engine (`native-ffi/src/lib.rs`,
`native-ffi/src/storage.rs`).

An engine that is started with a storage path and with the mesh enabled runs a
client storage and a mesh storage in one worker.  Each is a
`PersistentNostrDbStorage` over a `FileBlobStore`, and both are given the same
directory; the keys of their blobs are the same as well.
-/
import Nipworker.Lib.Run
import Nipworker.Storage.Persistent

namespace Nipworker

open List

/-! ### The directories -/

/-- The two storages of an engine. -/
inductive CacheSide
  | client | mesh
  deriving DecidableEq, Repr

/-- The storages, what is in each directory, and how many operations each blob
store has done. -/
structure NativeStorages where
  stores : CacheSide → PersistentStorage
  disk : String → Map String Bytes
  ops : CacheSide → ℕ

def nativeBufferSize : ℕ := 8 * 1024 * 1024

/-- The directory `nipworker_init_with_options` gives to a storage. -/
def storageDir (storagePath : String) : CacheSide → String
  | .client => storagePath
  | .mesh => storagePath

namespace NativeStorages

def start (disk : String → Map String Bytes) : NativeStorages :=
  { stores := fun _ => .new nativeBufferSize, disk := disk, ops := fun _ => 0 }

section

variable (fb : FlatBuffers) (storagePath : String) (fails : CacheSide → ℕ → Bool)

def view (st : NativeStorages) (side : CacheSide) : World :=
  { store := st.stores side, blobs := st.disk (storageDir storagePath side), ops := st.ops side }

/-- A step of one of the storages.  It runs to its end: the operations of a
`FileBlobStore` never wait. -/
def step (st : NativeStorages) (a : CacheSide × StorageStep) : NativeStorages :=
  let w := ((st.view storagePath a.1).step fb nativeBufferSize (fails a.1) a.2).1
  { stores := Function.update st.stores a.1 w.store
    disk := Function.update st.disk (storageDir storagePath a.1) w.blobs
    ops := Function.update st.ops a.1 w.ops }

/-- Runs in which the two take turns. -/
def run (st : NativeStorages) (steps : List (CacheSide × StorageStep)) : NativeStorages :=
  Run.exec (step fb storagePath fails) st steps

end

end NativeStorages

/-! ### Steps that write no blob -/

/-- A step that writes no blob: an initialization that has nothing to migrate;
a persist that is refused, or that holds no deletion that is not in the log yet
and comes before the next shard sync is due. -/
def StorageStep.WritesNothing (fb : FlatBuffers) (w : World) : StorageStep → Prop
  | .initializeStorage _ _ =>
    w.blobs.lookup encryptedParseCacheVersionKey = some encryptedParseCacheVersion ∨
      ∀ g ∈ [ShardId.kind4, .kind7375, .replaceable, .regular],
        (w.blobs.lookup (g.persistenceKey.getD "")).getD [] = []
  | .persist _ now _ bytes =>
    (∃ e, w.store.core.addWorkerMessageBytes fb bytes = .error e) ∨
      ((∀ id, deletionEventId fb bytes = some id → id ∈ w.store.walIds) ∧
        now - w.store.lastSyncMs ≤ syncIntervalMs)
  | .sync _ => False
  | .restart => True

def SameBlobs (w w' : World) : Prop := w'.blobs = w.blobs

instance : Std.Refl SameBlobs := ⟨fun _ => rfl⟩

instance : IsTrans World SameBlobs := ⟨fun _ _ _ h h' => h'.trans h⟩

namespace Storage

variable {fb : FlatBuffers} {fails : ℕ → Bool}

theorem sameBlobs_get (key : String) : Fallible.Keeps SameBlobs (get fails key) := by
  intro w
  unfold get
  split <;> rfl

theorem get_ok {key : String} {w w' : World} {stored : Option Bytes}
    (h : get fails key w = (w', .ok stored)) : stored = w.blobs.lookup key ∧ w'.blobs = w.blobs := by
  unfold get at h
  split at h
  · cases h
  · cases h
    exact ⟨rfl, rfl⟩

theorem clearShards_nothing (shards : List ShardId) (found : Bool) : ∀ w : World,
    (∀ g ∈ shards, (w.blobs.lookup (g.persistenceKey.getD "")).getD [] = []) →
    (clearShards fails shards found w).1.blobs = w.blobs ∧
      ∀ found', (clearShards fails shards found w).2 = .ok found' → found' = found := by
  induction shards with
  | nil => exact fun w _ => ⟨rfl, fun _ h => (Except.ok.inj h).symm⟩
  | cons g rest ih =>
    intro w hempty
    unfold clearShards
    rcases hget : get fails (g.persistenceKey.getD "") w with ⟨w', e | stored⟩
    · rw [Fallible.bind_error hget]
      have hsame : SameBlobs w (get fails (g.persistenceKey.getD "") w).1 := sameBlobs_get _ w
      rw [hget] at hsame
      exact ⟨hsame, nofun⟩
    · obtain ⟨hstored, hblobs⟩ := get_ok hget
      rw [Fallible.bind_ok hget]
      have hg := hempty g mem_cons_self
      have hnone : stored.any (fun bytes => bytes ≠ []) = false := by
        rw [hstored]
        rcases hlookup : w.blobs.lookup (g.persistenceKey.getD "") with _ | bytes
        · rfl
        · rw [hlookup, Option.getD_some] at hg
          rw [hg]
          rfl
      rw [hnone, if_neg Bool.false_ne_true]
      obtain ⟨hrest, hfound⟩ := ih w' fun g' hg' => by
        rw [hblobs]
        exact hempty g' (mem_cons_of_mem _ hg')
      exact ⟨hrest.trans hblobs, hfound⟩

theorem migrate_nothing {w : World}
    (h : w.blobs.lookup encryptedParseCacheVersionKey = some encryptedParseCacheVersion ∨
      ∀ g ∈ [ShardId.kind4, .kind7375, .replaceable, .regular],
        (w.blobs.lookup (g.persistenceKey.getD "")).getD [] = []) :
    (migratePoisonedEncryptedCache fails w).1.blobs = w.blobs := by
  unfold migratePoisonedEncryptedCache
  rcases hget : get fails encryptedParseCacheVersionKey w with ⟨w', e | version⟩
  · rw [Fallible.bind_error hget]
    have hsame : SameBlobs w (get fails encryptedParseCacheVersionKey w).1 := sameBlobs_get _ w
    rw [hget] at hsame
    exact hsame
  · obtain ⟨hversion, hblobs⟩ := get_ok hget
    rw [Fallible.bind_ok hget]
    by_cases hmarker : version = some encryptedParseCacheVersion
    · rw [if_pos hmarker]
      exact hblobs
    · rw [if_neg hmarker]
      have hempty := h.resolve_left fun hlookup => hmarker (hversion.trans hlookup)
      rcases hrun : clearShards fails [ShardId.kind4, .kind7375, .replaceable, .regular] false w'
        with ⟨w'', outcome⟩
      obtain ⟨hclear, hfound⟩ := hrun ▸ clearShards_nothing
        [ShardId.kind4, .kind7375, .replaceable, .regular] false w' (by rw [hblobs]; exact hempty)
      rcases outcome with e | found
      · rw [Fallible.bind_error hrun]
        exact hclear.trans hblobs
      · rw [Fallible.bind_ok hrun, hfound found rfl, if_neg Bool.false_ne_true]
        exact hclear.trans hblobs

theorem sameBlobs_readShard (g : ShardId) : Fallible.Keeps SameBlobs (readShard fails g) := by
  refine Fallible.Keeps.bind (sameBlobs_get _) fun stored => ?_
  split
  · exact sameBlobs_get _
  · exact Fallible.keeps_pure _

theorem sameBlobs_readShards (shards : List ShardId) : ∀ shardBytes : ShardId → Option Bytes,
    Fallible.Keeps SameBlobs (readShards fails shards shardBytes) := by
  induction shards with
  | nil => exact fun _ => Fallible.keeps_pure _
  | cons g rest ih =>
    intro shardBytes
    refine Fallible.Keeps.bind (sameBlobs_readShard g) fun stored => ?_
    split
    · split
      · exact ih _
      · exact ih _
    · exact ih _

variable (order : IterOrder ShardId)

theorem sameBlobs_loadShards (shardBytes : ShardId → Option Bytes) :
    Fallible.Keeps SameBlobs (loadShards fb order shardBytes) := by
  intro w
  unfold loadShards
  dsimp only
  split
  · rfl
  · split <;> rfl

theorem sameBlobs_loadTombstones : Fallible.Keeps SameBlobs (loadTombstones fails fb) := by
  refine Fallible.Keeps.bind (sameBlobs_get _) fun stored => ?_
  split
  · exact Fallible.keeps_pure _
  · exact Fallible.keeps_change fun _ => rfl

theorem initializeStorage_nothing (now : ℕ) {w : World}
    (h : w.blobs.lookup encryptedParseCacheVersionKey = some encryptedParseCacheVersion ∨
      ∀ g ∈ [ShardId.kind4, .kind7375, .replaceable, .regular],
        (w.blobs.lookup (g.persistenceKey.getD "")).getD [] = []) :
    (initializeStorage fails fb order now w).1.blobs = w.blobs := by
  -- behind the migration an initialization only reads
  have hread : ∀ _ : Unit, Fallible.Keeps SameBlobs (do
      let shardBytes ← readShards fails ShardId.persistentIds fun _ => none
      loadShards fb order shardBytes) :=
    fun _ => Fallible.Keeps.bind (sameBlobs_readShards _ _) fun _ => sameBlobs_loadShards _ _
  have hreplay : ∀ _ : Unit, Fallible.Keeps SameBlobs (do
      loadTombstones fails fb
      markSynced now) :=
    fun _ => Fallible.Keeps.bind sameBlobs_loadTombstones fun _ => Fallible.keeps_change fun _ => rfl
  unfold initializeStorage hydrateFromBlobStore
  rw [Fallible.bind_ok (Fallible.change_apply _ w)]
  refine Fallible.keeps_bind_at (Fallible.keeps_bind_at ?_ hread) hreplay
  exact migrate_nothing h

theorem persist_nothing (now now' : ℕ) {bytes : Bytes} {w : World}
    (h : (∃ e, w.store.core.addWorkerMessageBytes fb bytes = .error e) ∨
      ((∀ id, deletionEventId fb bytes = some id → id ∈ w.store.walIds) ∧
        now - w.store.lastSyncMs ≤ syncIntervalMs)) :
    (persist fails fb order now now' bytes w).1.blobs = w.blobs := by
  unfold persist
  rcases hcore : w.store.core.addWorkerMessageBytes fb bytes with e | core
  · have hrefused : corePersist fb bytes w
        = (w, .error (.other ("NostrDB persist failed: " ++ e.display))) := by
      unfold corePersist
      rw [hcore]
    rw [Fallible.bind_error hrefused]
  · have hstored : corePersist fb bytes w
        = ({ w with store := { w.store with core := core } }, .ok ()) := by
      unfold corePersist
      rw [hcore]
    obtain ⟨hlogged, hnotDue⟩ := h.resolve_left (by rw [hcore]; exact nofun)
    rw [Fallible.bind_ok hstored]
    have hlog : persistDeletion fails fb bytes { w with store := { w.store with core := core } }
        = ({ w with store := { w.store with core := core } }, .ok ()) := by
      unfold persistDeletion
      rcases hid : deletionEventId fb bytes with _ | id
      · rfl
      · dsimp only
        show (if id ∈ w.store.walIds then _ else _ : Storage Unit) _ = _
        rw [if_pos (hlogged id hid)]
        rfl
    rw [Fallible.bind_ok hlog]
    unfold syncIfDue
    show ((if now - w.store.lastSyncMs > syncIntervalMs then _ else _ : Storage Unit) _).1.blobs = _
    rw [if_neg (by omega)]
    rfl

end Storage

/-- **A step that writes nothing** leaves the blobs as they are. -/
theorem World.blobs_step {fb : FlatBuffers} (maxBufferSize : ℕ) (fails : ℕ → Bool) {w : World}
    {a : StorageStep} (h : a.WritesNothing fb w) : (w.step fb maxBufferSize fails a).1.blobs = w.blobs := by
  cases a with
  | initializeStorage order now => exact Storage.initializeStorage_nothing order now h
  | persist order now now' bytes => exact Storage.persist_nothing order now now' h
  | sync order => exact h.elim
  | restart => rfl

/-! ### One storage beside the other -/

namespace NativeStorages

variable {fb : FlatBuffers} {storagePath : String} {fails : CacheSide → ℕ → Bool}

theorem view_step_self (st : NativeStorages) (side : CacheSide) (a : StorageStep) :
    (st.step fb storagePath fails (side, a)).view storagePath side
      = ((st.view storagePath side).step fb nativeBufferSize (fails side) a).1 := by
  simp only [view, step, Function.update_self]

theorem view_step_other (st : NativeStorages) {side other : CacheSide} (hside : other ≠ side)
    {a : StorageStep} (h : a.WritesNothing fb (st.view storagePath other)) :
    (st.step fb storagePath fails (other, a)).view storagePath side = st.view storagePath side := by
  have hblobs := World.blobs_step nativeBufferSize (fails other) h
  have hdisk : (st.step fb storagePath fails (other, a)).disk = st.disk := by
    show Function.update st.disk _ _ = _
    rw [hblobs]
    exact Function.update_eq_self _ _
  rw [view, hdisk]
  simp only [view, step, Function.update_of_ne (Ne.symm hside)]

/-- **A run in which the other storage writes nothing** ends for a storage as
if it had been alone. -/
theorem view_run (side : CacheSide) (steps : List (CacheSide × StorageStep)) :
    ∀ {st alone : NativeStorages}, st.view storagePath side = alone.view storagePath side →
    Run.Along (step fb storagePath fails)
      (fun st a => a.1 ≠ side → a.2.WritesNothing fb (st.view storagePath a.1)) st steps →
    (st.run fb storagePath fails steps).view storagePath side
      = (alone.run fb storagePath fails (steps.filter fun a => a.1 = side)).view storagePath side := by
  induction steps with
  | nil => exact fun h _ => h
  | cons a rest ih =>
    intro st alone hview hquiet
    by_cases hside : a.1 = side
    · rw [filter_cons, if_pos (decide_eq_true hside)]
      refine ih ?_ hquiet.2
      obtain ⟨other, a⟩ := a
      obtain rfl : other = side := hside
      rw [view_step_self, view_step_self, hview]
    · rw [filter_cons, if_neg (by rw [decide_eq_true_eq]; exact hside)]
      refine ih ?_ hquiet.2
      exact (view_step_other st hside (hquiet.1 hside)).trans hview

end NativeStorages

/-- **A storage is restored as if it had been alone**, after any run in which
the other one writes no blob: what it finds in the shard blobs and in the
deletion log is what it would find had the other never been there. -/
theorem storage_undisturbed (fb : FlatBuffers) (storagePath : String)
    (fails : CacheSide → ℕ → Bool) (st : NativeStorages) (steps : List (CacheSide × StorageStep))
    (side : CacheSide)
    (hquiet : Run.Along (NativeStorages.step fb storagePath fails)
      (fun st a => a.1 ≠ side → a.2.WritesNothing fb (st.view storagePath a.1)) st steps)
    (order : IterOrder ShardId) (now : ℕ) :
    let reopen := [(side, StorageStep.restart), (side, StorageStep.initializeStorage order now)]
    (st.run fb storagePath fails (steps ++ reopen)).stores side
      = (st.run fb storagePath fails
          ((steps.filter fun a => a.1 = side) ++ reopen)).stores side := by
  intro reopen
  have hview := NativeStorages.view_run side steps
    (rfl : st.view storagePath side = st.view storagePath side) hquiet
  have hreopen : ∀ a : StorageStep, ∀ {x y : NativeStorages},
      x.view storagePath side = y.view storagePath side →
      (x.step fb storagePath fails (side, a)).view storagePath side
        = (y.step fb storagePath fails (side, a)).view storagePath side := by
    intro a x y hxy
    rw [NativeStorages.view_step_self, NativeStorages.view_step_self, hxy]
  unfold NativeStorages.run at hview ⊢
  rw [Run.exec_append, Run.exec_append]
  exact congrArg World.store (hreopen _ (hreopen _ hview))

/-! ### A note of the client and a deletion in the mesh -/

/-- A client that stores a note and syncs, beside a mesh storage that is given
the note as well. -/
def noteInBoth : List (CacheSide × StorageStep) :=
  [(.client, .initializeStorage (.entries _) 0), (.mesh, .initializeStorage (.entries _) 0),
    (.client, .persist (.entries _) 1 1 noteBytes), (.mesh, .persist (.entries _) 1 1 noteBytes),
    (.client, .sync (.entries _))]

def sidesNeverFail : CacheSide → ℕ → Bool := fun _ _ => false

def reopen (side : CacheSide) : List (CacheSide × StorageStep) :=
  [(side, .restart), (side, .initializeStorage (.entries _) 2)]

theorem storage_undisturbed_note :
    ((NativeStorages.start fun _ => ∅).run noteReaders "/data" sidesNeverFail
        (noteInBoth ++ reopen .client)).stores .client
      = ((NativeStorages.start fun _ => ∅).run noteReaders "/data" sidesNeverFail
          ((noteInBoth.filter fun a => a.1 = .client) ++ reopen .client)).stores .client := by
  refine storage_undisturbed noteReaders "/data" sidesNeverFail _ noteInBoth .client ?_ _ 2
  refine ⟨nofun, fun _ => .inr ?_, nofun, fun _ => .inr ⟨?_, ?_⟩, nofun, trivial⟩
  · decide +kernel
  · intro id hid
    have hnone : deletionEventId noteReaders noteBytes = none := by decide +kernel
    rw [hnone] at hid
    cases hid
  · decide +kernel

/-- A client that stores a note and syncs, beside a mesh storage that is given
its deletion. -/
def deletionInMesh : List (CacheSide × StorageStep) :=
  [(.client, .initializeStorage (.entries _) 0), (.mesh, .initializeStorage (.entries _) 0),
    (.client, .persist (.entries _) 1 1 noteBytes), (.client, .sync (.entries _)),
    (.mesh, .persist (.entries _) 1 1 noteDeletionBytes)]

/-- The mesh storage writes its deletion log over that of the client, and the
client replays it: the note is hidden after a restart, and would not be had the
mesh storage never been written. -/
theorem mesh_deletion_hides_note :
    let start := NativeStorages.start fun _ => ∅
    (((start.run noteReaders "/data" sidesNeverFail
        (deletionInMesh ++ reopen .client)).stores .client).core.index.Suppressed "n1") ∧
      ¬ ((start.run noteReaders "/data" sidesNeverFail
          ((deletionInMesh.filter fun a => a.1 = .client) ++
            reopen .client)).stores .client).core.index.Suppressed "n1" := by
  decide +kernel

end Nipworker
