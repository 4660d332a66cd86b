/-
The persistent storage (`storage/persistent.rs`).

A `PersistentNostrDbStorage` keeps its event database in memory and writes it
to a blob store: the shards now and then, the NIP-09 deletions at once.  The
deletions go to a log of their own, the blob `tombstones`, which holds the
stored kind 5 messages one after the other and is replayed after a restart.

Reading and writing a blob may fail at any time; `fails n` says whether the
`n`-th operation does.  A write that fails leaves the blob as it was.
-/
import Nipworker.Lib.Fallible
import Nipworker.Storage.NostrDb

namespace Nipworker

inductive StorageError
  | other (message : String)
  deriving DecidableEq, Repr

/-- The text of a `DatabaseError`. -/
def DatabaseError.display : DatabaseError → String
  | .notInitialized => "Database not initialized"
  | .storageError message => "Storage error: " ++ message
  | .lockError => "Lock error: failed to acquire database lock"

def syncIntervalMs : ℕ := 30000

def tombstonesKey : String := "tombstones"

def encryptedParseCacheVersionKey : String := "encrypted-parse-cache-version"

/-- `ENCRYPTED_PARSE_CACHE_VERSION`, the byte string `1`. -/
def encryptedParseCacheVersion : Bytes := [49]

def maxWalEntries : ℕ := 8192

/-- `PersistentNostrDbStorage`, without its blob store. -/
structure PersistentStorage where
  core : NostrDB
  lastSyncMs : ℕ
  wal : Bytes
  walIds : Finset String
  walEntries : ℕ

/-- `PersistentNostrDbStorage::new` over a fresh core. -/
def PersistentStorage.new (maxBufferSize : ℕ) : PersistentStorage :=
  { core := NostrDB.new maxBufferSize, lastSyncMs := 0, wal := [], walIds := ∅, walEntries := 0 }

/-- A storage and its blobs, with the number of blob operations so far. -/
structure World where
  store : PersistentStorage
  blobs : Map String Bytes
  ops : ℕ

/-- What the storage does: it changes the world and may fail. -/
abbrev Storage (α : Type) := Fallible World StorageError α

/-! ### The deletion log -/

def deletionEventId (fb : FlatBuffers) (bytes : Bytes) : Option String :=
  match fb.workerMessage bytes with
  | some (.parsedEvent ev) => if ev.kind = eventDeletion then some ev.id else none
  | some (.nostrEvent ev) => if ev.kind = eventDeletion then some ev.id else none
  | _ => none

/-- The boundaries of the entries of a log that begins at an offset. -/
def walBoundaries (offset : ℕ) (rest : Bytes) : List ℕ :=
  if rest.length < 4 then []
  else
    let len := U32.ofLeBytes rest
    offset :: walBoundaries (offset + (4 + len)) (rest.drop (4 + len))
termination_by rest.length
decreasing_by
  rw [List.length_drop]
  omega

def walIdsOf (fb : FlatBuffers) (rest : Bytes) : Finset String :=
  ((unframe rest).filterMap (deletionEventId fb)).toFinset

def compactWal (fb : FlatBuffers) (wal : Bytes) (entries : ℕ) (walIds : Finset String) :
    Bytes × ℕ × Finset String :=
  let boundaries := walBoundaries 0 wal
  if boundaries.length ≤ maxWalEntries then (wal, entries, walIds)
  else
    let keepFrom := boundaries.getD (boundaries.length - maxWalEntries) 0
    let wal := wal.drop keepFrom
    (wal, maxWalEntries, walIdsOf fb wal)

/-- Append a deletion to the log, and compact it when it has grown too long. -/
def appendWal (fb : FlatBuffers) (s : PersistentStorage) (id : String) (bytes : Bytes) :
    PersistentStorage :=
  let wal := s.wal ++ frame bytes
  let entries := s.walEntries + 1
  let walIds := insert id s.walIds
  if entries > maxWalEntries then
    let (wal, entries, walIds) := compactWal fb wal entries walIds
    { s with wal := wal, walEntries := entries, walIds := walIds }
  else { s with wal := wal, walEntries := entries, walIds := walIds }

/-- The effect of `load_tombstones` on a storage, once the blob is read: replay
the whole entries at the front and keep them as the log. -/
def replayWal (fb : FlatBuffers) (s : PersistentStorage) (bytes : Bytes) : PersistentStorage :=
  let entries := unframe bytes
  let validLen := (entries.map fun entry => 4 + entry.length).sum
  let replayed := entries.foldl
    (fun acc entry =>
      let (st, id) := applyDeletionsFromBytes fb acc.1 entry
      (st, id.elim acc.2 fun id => insert id acc.2))
    (s.core.index, s.walIds)
  { s with
    core := { s.core with index := replayed.1 }
    walIds := replayed.2
    wal := bytes.take validLen
    walEntries := entries.length }

namespace Storage

section

variable (fails : ℕ → Bool)

def get (key : String) : Storage (Option Bytes) := fun w =>
  if fails w.ops then
    ({ w with ops := w.ops + 1 }, .error (.other ("Failed to read blob '" ++ key ++ "'")))
  else ({ w with ops := w.ops + 1 }, .ok (w.blobs.lookup key))

def put (key : String) (bytes : Bytes) : Storage Unit := fun w =>
  if fails w.ops then
    ({ w with ops := w.ops + 1 }, .error (.other ("Failed to write blob '" ++ key ++ "'")))
  else ({ w with ops := w.ops + 1, blobs := AList.insert key bytes w.blobs }, .ok ())

/-- Empty the blobs of some shards; `true` when there was anything in them. -/
def clearShards : List ShardId → Bool → Storage Bool
  | [], foundOldData => pure foundOldData
  | g :: rest, foundOldData => do
    let key := g.persistenceKey.getD ""
    let stored ← get fails key
    if stored.any (fun bytes => bytes ≠ []) then do
      put fails key []
      clearShards rest true
    else clearShards rest foundOldData

def migratePoisonedEncryptedCache : Storage Unit := do
  let version ← get fails encryptedParseCacheVersionKey
  if version = some encryptedParseCacheVersion then pure ()
  else do
    let foundOldData ← clearShards fails [.kind4, .kind7375, .replaceable, .regular] false
    if foundOldData then put fails encryptedParseCacheVersionKey encryptedParseCacheVersion
    else pure ()

/-- The blob of a shard.  Older versions kept kind 10002 in a blob of its own,
which stands in for a replaceable shard that is not there. -/
def readShard (g : ShardId) : Storage (Option Bytes) := do
  let stored ← get fails (g.persistenceKey.getD "")
  if stored = none ∧ g = .replaceable then get fails "shard:kind10002" else pure stored

def readShards : List ShardId → (ShardId → Option Bytes) → Storage (ShardId → Option Bytes)
  | [], shardBytes => pure shardBytes
  | g :: rest, shardBytes => do
    let stored ← readShard fails g
    match stored with
    | some bytes =>
      if bytes ≠ [] then readShards rest (Function.update shardBytes g (some bytes))
      else readShards rest shardBytes
    | none => readShards rest shardBytes

/-- Load the shards that were read into the core, and index them. -/
def loadShards (fb : FlatBuffers) (order : IterOrder ShardId) (shardBytes : ShardId → Option Bytes) :
    Storage Unit := fun w =>
  let keys := ShardId.persistentIds.filter fun g => (shardBytes g).isSome
  if keys = [] then (w, .ok ())
  else
    let (storage, result) := ShardedStorage.loadAllShards shardBytes w.store.core.storage
      (order.order keys)
    let core := { w.store.core with storage := storage }
    match result with
    | .error e =>
      ({ w with store := { w.store with core := core } },
        .error (.other ("Failed to load persisted shards: " ++ e.display)))
    | .ok () =>
      ({ w with store := { w.store with core := core.rebuildIndexesFromStorage fb } }, .ok ())

def hydrateFromBlobStore (fb : FlatBuffers) (order : IterOrder ShardId) : Storage Unit := do
  migratePoisonedEncryptedCache fails
  let shardBytes ← readShards fails ShardId.persistentIds fun _ => none
  loadShards fb order shardBytes

def loadTombstones (fb : FlatBuffers) : Storage Unit := do
  let stored ← get fails tombstonesKey
  match stored with
  | none => pure ()
  | some bytes => Fallible.change fun w => { w with store := replayWal fb w.store bytes }

/-- `mark_synced`, at a reading of the clock. -/
def markSynced (now : ℕ) : Storage Unit :=
  Fallible.change fun w => { w with store := { w.store with lastSyncMs := now } }

/-- `initialize`. -/
def initializeStorage (fb : FlatBuffers) (order : IterOrder ShardId) (now : ℕ) : Storage Unit := do
  Fallible.change fun w =>
    { w with store := { w.store with core := w.store.core.initializeDb fb } }
  hydrateFromBlobStore fails fb order
  loadTombstones fails fb
  markSynced now

def putShards (shardBytes : ShardId → Option Bytes) : List ShardId → Storage Unit
  | [] => pure ()
  | g :: rest =>
    match shardBytes g with
    | none => putShards shardBytes rest
    | some bytes => do
      put fails (g.persistenceKey.getD "") bytes
      putShards shardBytes rest

/-- The shards that hold something are written, then the version marker. -/
def syncToBlobStore (order : IterOrder ShardId) : Storage Unit := do
  let w ← Fallible.read
  let shardBytes := w.store.core.storage.saveAllShards
  putShards fails shardBytes
    (order.order (ShardId.persistentIds.filter fun g => (shardBytes g).isSome))
  put fails encryptedParseCacheVersionKey encryptedParseCacheVersion

/-- `NostrDbStorage::persist`. -/
def corePersist (fb : FlatBuffers) (bytes : Bytes) : Storage Unit := fun w =>
  match w.store.core.addWorkerMessageBytes fb bytes with
  | .error e => (w, .error (.other ("NostrDB persist failed: " ++ e.display)))
  | .ok core => ({ w with store := { w.store with core := core } }, .ok ())

/-- The deletion part of `persist`: a kind 5 that is not in the log yet is
appended to it, and the log is written at once. -/
def persistDeletion (fb : FlatBuffers) (bytes : Bytes) : Storage Unit := do
  match deletionEventId fb bytes with
  | none => pure ()
  | some id => do
    let w ← Fallible.read
    if id ∈ w.store.walIds then pure ()
    else do
      Fallible.change fun w => { w with store := appendWal fb w.store id bytes }
      let w ← Fallible.read
      put fails tombstonesKey w.store.wal

/-- The end of `persist`: the shard sync, when it is due. -/
def syncIfDue (order : IterOrder ShardId) (now now' : ℕ) : Storage Unit := do
  let w ← Fallible.read
  if now - w.store.lastSyncMs > syncIntervalMs then do
    syncToBlobStore fails order
    markSynced now'
  else pure ()

/-- `persist`, at two readings of the clock. -/
def persist (fb : FlatBuffers) (order : IterOrder ShardId) (now now' : ℕ) (bytes : Bytes) :
    Storage Unit := do
  corePersist fb bytes
  persistDeletion fails fb bytes
  syncIfDue fails order now now'

end

end Storage

/-! ### Runs -/

/-- A step of a run.  The order is the one in which the hash maps of the step
are walked. -/
inductive StorageStep
  | initializeStorage (order : IterOrder ShardId) (now : ℕ)
  | persist (order : IterOrder ShardId) (now now' : ℕ) (bytes : Bytes)
  | sync (order : IterOrder ShardId)
  | restart

section

variable (fb : FlatBuffers) (maxBufferSize : ℕ) (fails : ℕ → Bool)

def World.step (w : World) : StorageStep → World × Except StorageError Unit
  | .initializeStorage order now => Storage.initializeStorage fails fb order now w
  | .persist order now now' bytes => Storage.persist fails fb order now now' bytes w
  | .sync order => Storage.syncToBlobStore fails order w
  | .restart => ({ w with store := PersistentStorage.new maxBufferSize }, .ok ())

/-- A run of steps; an error of one does not stop the next. -/
def World.run (w : World) (steps : List StorageStep) : World :=
  steps.foldl (fun w step => (w.step fb maxBufferSize fails step).1) w

end

/-! ### What hydration and the shard sync leave alone -/

/-- The tombstones blob is as it was, and so is the log in memory. -/
def Frame (w w' : World) : Prop :=
  w'.blobs.lookup tombstonesKey = w.blobs.lookup tombstonesKey ∧ w'.store.wal = w.store.wal ∧
    w'.store.walIds = w.store.walIds ∧ w'.store.walEntries = w.store.walEntries

instance : Std.Refl Frame := ⟨fun _ => ⟨rfl, rfl, rfl, rfl⟩⟩

instance : IsTrans World Frame :=
  ⟨fun _ _ _ h h' =>
    ⟨h'.1.trans h.1, h'.2.1.trans h.2.1, h'.2.2.1.trans h.2.2.1, h'.2.2.2.trans h.2.2.2⟩⟩

namespace Storage

variable {fb : FlatBuffers} {fails : ℕ → Bool}

theorem frame_get (key : String) : Fallible.Keeps Frame (get fails key) := by
  intro w
  unfold get
  split <;> exact ⟨rfl, rfl, rfl, rfl⟩

theorem frame_put {key : String} (hkey : key ≠ tombstonesKey) (bytes : Bytes) :
    Fallible.Keeps Frame (put fails key bytes) := by
  intro w
  unfold put
  split
  · exact ⟨rfl, rfl, rfl, rfl⟩
  · exact ⟨by rw [Map.lookup_insert_ite, if_neg (Ne.symm hkey)], rfl, rfl, rfl⟩

theorem persistenceKey_ne_tombstonesKey (g : ShardId) :
    g.persistenceKey.getD "" ≠ tombstonesKey := by
  cases g <;> decide

theorem frame_clearShards (shards : List ShardId) : ∀ foundOldData : Bool,
    Fallible.Keeps Frame (clearShards fails shards foundOldData) := by
  induction shards with
  | nil => exact fun _ => Fallible.keeps_pure _
  | cons g rest ih =>
    intro foundOldData
    refine Fallible.Keeps.bind (frame_get _) fun stored => ?_
    split
    · exact Fallible.Keeps.bind (frame_put (persistenceKey_ne_tombstonesKey g) _)
        fun _ => ih true
    · exact ih foundOldData

theorem frame_migrate : Fallible.Keeps Frame (migratePoisonedEncryptedCache fails) := by
  refine Fallible.Keeps.bind (frame_get _) fun version => ?_
  split
  · exact Fallible.keeps_pure _
  · refine Fallible.Keeps.bind (frame_clearShards _ _) fun found => ?_
    split
    · exact frame_put (by decide) _
    · exact Fallible.keeps_pure _

theorem frame_readShard (g : ShardId) : Fallible.Keeps Frame (readShard fails g) := by
  refine Fallible.Keeps.bind (frame_get _) fun stored => ?_
  split
  · exact frame_get _
  · exact Fallible.keeps_pure _

theorem frame_readShards (shards : List ShardId) : ∀ shardBytes : ShardId → Option Bytes,
    Fallible.Keeps Frame (readShards fails shards shardBytes) := by
  induction shards with
  | nil => exact fun _ => Fallible.keeps_pure _
  | cons g rest ih =>
    intro shardBytes
    refine Fallible.Keeps.bind (frame_readShard g) fun stored => ?_
    split
    · split
      · exact ih _
      · exact ih _
    · exact ih _

variable (order : IterOrder ShardId)

theorem frame_loadShards (shardBytes : ShardId → Option Bytes) :
    Fallible.Keeps Frame (loadShards fb order shardBytes) := by
  intro w
  unfold loadShards
  dsimp only
  split
  · exact ⟨rfl, rfl, rfl, rfl⟩
  · split <;> exact ⟨rfl, rfl, rfl, rfl⟩

theorem frame_hydrate : Fallible.Keeps Frame (hydrateFromBlobStore fails fb order) :=
  Fallible.Keeps.bind frame_migrate fun _ =>
    Fallible.Keeps.bind (frame_readShards _ _) fun _ => frame_loadShards _ _

theorem frame_markSynced (now : ℕ) : Fallible.Keeps Frame (markSynced now) :=
  fun _ => ⟨rfl, rfl, rfl, rfl⟩

theorem frame_putShards (shardBytes : ShardId → Option Bytes) (shards : List ShardId) :
    Fallible.Keeps Frame (putShards fails shardBytes shards) := by
  induction shards with
  | nil => exact Fallible.keeps_pure _
  | cons g rest ih =>
    unfold putShards
    split
    · exact ih
    · exact Fallible.Keeps.bind (frame_put (persistenceKey_ne_tombstonesKey g) _)
        fun _ => ih

theorem frame_sync : Fallible.Keeps Frame (syncToBlobStore fails order) :=
  Fallible.Keeps.bind Fallible.keeps_read fun _ =>
    Fallible.Keeps.bind (frame_putShards _ _) fun _ => frame_put (by decide) _

theorem frame_syncIfDue (now now' : ℕ) : Fallible.Keeps Frame (syncIfDue fails order now now') := by
  refine Fallible.Keeps.bind Fallible.keeps_read fun w => ?_
  split
  · exact Fallible.Keeps.bind (frame_sync order) fun _ => frame_markSynced _
  · exact Fallible.keeps_pure _

theorem frame_corePersist (bytes : Bytes) : Fallible.Keeps Frame (corePersist fb bytes) := by
  intro w
  unfold corePersist
  split <;> exact ⟨rfl, rfl, rfl, rfl⟩

end Storage

end Nipworker
