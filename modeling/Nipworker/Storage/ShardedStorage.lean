/-
The sharded event storage (`storage/db/sharded_storage.rs`).

Events are spread over nine ring buffers by their kind, so that a flood of one
sort does not evict the others.  An event is known to the index by a composite
offset: the shard in the upper 8 bits, the offset within its ring in the lower
56.
-/
import Nipworker.Lib.Map
import Nipworker.Storage.RingBuffer

namespace Nipworker

/-- The shards, by the kind of an event. -/
inductive ShardId
  | default | profile | kind4 | kind7375 | replaceable | regular | reaction | ephemeral
  | addressable
  deriving DecidableEq, Repr

namespace ShardId

def fromKind (kind : ℕ) : ShardId :=
  if kind = 0 then .profile
  else if kind = 3 then .replaceable
  else if kind = 4 then .kind4
  else if kind = 7 then .reaction
  else if kind = 7375 then .kind7375
  else if kind ≤ 9999 then .regular
  else if kind ≤ 19999 then .replaceable
  else if kind ≤ 29999 then .ephemeral
  else if kind ≤ 39999 then .addressable
  else .default

def asU8 : ShardId → ℕ
  | .default => 0
  | .profile => 1
  | .kind4 => 2
  | .kind7375 => 3
  | .replaceable => 4
  | .regular => 5
  | .reaction => 6
  | .ephemeral => 7
  | .addressable => 8

def fromU8 : ℕ → Option ShardId
  | 0 => some .default
  | 1 => some .profile
  | 2 => some .kind4
  | 3 => some .kind7375
  | 4 => some .replaceable
  | 5 => some .regular
  | 6 => some .reaction
  | 7 => some .ephemeral
  | 8 => some .addressable
  | _ => none

/-- All shards, in the order of the `BTreeMap` that holds them. -/
def all : List ShardId :=
  [.default, .profile, .kind4, .kind7375, .replaceable, .regular, .reaction, .ephemeral,
    .addressable]

theorem mem_all (g : ShardId) : g ∈ all := by
  cases g <;> decide

def isPersistent (g : ShardId) : Bool := g ≠ .ephemeral

def persistentIds : List ShardId :=
  [.default, .profile, .kind4, .kind7375, .replaceable, .regular, .reaction, .addressable]

def persistenceKey : ShardId → Option String
  | .default => some "shard:default"
  | .profile => some "shard:kind0"
  | .kind4 => some "shard:kind4"
  | .kind7375 => some "shard:kind7375"
  | .replaceable => some "shard:replaceable"
  | .regular => some "shard:regular"
  | .reaction => some "shard:reaction"
  | .addressable => some "shard:addressable"
  | .ephemeral => none

def debugName : ShardId → String
  | .default => "Default"
  | .profile => "Profile"
  | .kind4 => "Kind4"
  | .kind7375 => "Kind7375"
  | .replaceable => "Replaceable"
  | .regular => "Regular"
  | .reaction => "Reaction"
  | .ephemeral => "Ephemeral"
  | .addressable => "Addressable"

theorem fromU8_asU8 (g : ShardId) : fromU8 g.asU8 = some g := by
  cases g <;> rfl

theorem asU8_lt (g : ShardId) : g.asU8 < 256 := by
  cases g <;> decide

end ShardId

/-! ### Capacities -/

def legacyDedicatedBytes : ℕ := 6 * 1024 * 1024

/-- The share of a weight in the total budget, out of 28. -/
def weighted (total weight : ℕ) : ℕ := total / 28 * weight + total % 28 * weight / 28

/-- `ShardCapacities::from_legacy_default`: the budget split over the shards;
the large addressable shard gets what is left. -/
def shardCapacity (defaultCapacity : ℕ) (g : ShardId) : ℕ :=
  let total := min (defaultCapacity + legacyDedicatedBytes) (2 ^ 64 - 1)
  match g with
  | .default => weighted total 1
  | .profile => weighted total 2
  | .kind4 => weighted total 2
  | .kind7375 => weighted total 1
  | .replaceable => weighted total 4
  | .regular => weighted total 8
  | .reaction => weighted total 3
  | .ephemeral => weighted total 2
  | .addressable => total - (weighted total 1 + weighted total 2 + weighted total 2
      + weighted total 1 + weighted total 4 + weighted total 8 + weighted total 3
      + weighted total 2)

theorem weighted_le (total : ℕ) {weight : ℕ} (h : weight ≤ 28) : weighted total weight ≤ total := by
  have hrem : total % 28 * weight / 28 ≤ total % 28 := by
    refine Nat.div_le_of_le_mul ?_
    rw [Nat.mul_comm 28]
    exact Nat.mul_le_mul_left _ h
  have hquot : total / 28 * weight ≤ total / 28 * 28 := Nat.mul_le_mul_left _ h
  have := Nat.div_add_mod total 28
  unfold weighted
  omega

theorem shardCapacity_le (defaultCapacity : ℕ) (g : ShardId) :
    shardCapacity defaultCapacity g ≤ defaultCapacity + legacyDedicatedBytes := by
  have hmin : min (defaultCapacity + legacyDedicatedBytes) (2 ^ 64 - 1)
      ≤ defaultCapacity + legacyDedicatedBytes := Nat.min_le_left _ _
  unfold shardCapacity
  dsimp only
  split
  all_goals first
    | exact (weighted_le _ (by decide)).trans hmin
    | exact (Nat.sub_le _ _).trans hmin

/-! ### Composite offsets -/

def packOffset (g : ShardId) (inner : ℕ) : ℕ := g.asU8 * 2 ^ 56 + inner % 2 ^ 56

def unpackOffset (composite : ℕ) : ShardId × ℕ :=
  ((ShardId.fromU8 (composite / 2 ^ 56 % 256)).getD .default, composite % 2 ^ 56)

/-- A composite offset names its shard and, modulo `2 ^ 56`, its place. -/
theorem unpackOffset_packOffset (g : ShardId) (inner : ℕ) :
    unpackOffset (packOffset g inner) = (g, inner % 2 ^ 56) := by
  have hlt := g.asU8_lt
  have hshard : packOffset g inner / 2 ^ 56 % 256 = g.asU8 := by
    unfold packOffset
    omega
  have hinner : packOffset g inner % 2 ^ 56 = inner % 2 ^ 56 := by
    unfold packOffset
    omega
  rw [unpackOffset, hshard, hinner, ShardId.fromU8_asU8, Option.getD_some]

/-! ### The storage -/

/-- `ShardedRingBufferStorage`: all nine shards are there. -/
structure ShardedStorage where
  shards : ShardId → RingBuffer

namespace ShardedStorage

def newDefault (legacyDefaultCapacity : ℕ) : ShardedStorage :=
  { shards := fun g => RingBuffer.new (shardCapacity legacyDefaultCapacity g) }

def initializeStorage (s : ShardedStorage) : ShardedStorage :=
  { shards := fun g => (s.shards g).initializeStorage }

def addEventForKind (s : ShardedStorage) (kind : ℕ) (eventData : Bytes) :
    Except DatabaseError (ShardedStorage × ℕ) :=
  let g := ShardId.fromKind kind
  match (s.shards g).addEvent eventData with
  | .error e => .error e
  | .ok (r, inner) => .ok ({ shards := Function.update s.shards g r }, packOffset g inner)

def getEvent (s : ShardedStorage) (eventOffset : ℕ) : Except DatabaseError (Option Bytes) :=
  let (g, inner) := unpackOffset eventOffset
  (s.shards g).getEventAtOffset inner

def containsOffset (s : ShardedStorage) (eventOffset : ℕ) : Bool :=
  let (g, inner) := unpackOffset eventOffset
  (s.shards g).containsOffset inner

def loadEvents (s : ShardedStorage) : List ℕ :=
  ShardId.all.flatMap fun g => (s.shards g).loadEvents.map (packOffset g)

def saveAllShards (s : ShardedStorage) (g : ShardId) : Option Bytes :=
  if g.isPersistent = false then none
  else if (s.shards g).saveToBytes = [] then none
  else some (s.shards g).saveToBytes

/-- One shard of `load_all_shards`. -/
def loadShard (shardBytes : ShardId → Option Bytes) (s : ShardedStorage) (g : ShardId) :
    Except DatabaseError ShardedStorage :=
  match shardBytes g with
  | none => .ok s
  | some bytes =>
    if g.isPersistent = false then .ok s
    else
      match (s.shards g).loadFromBytes bytes with
      | .error e => .error (.storageError ("Shard " ++ g.debugName ++ ": " ++ e))
      | .ok r => .ok { shards := Function.update s.shards g r }

/-- The shards are loaded in the order the map is walked, and stay loaded when a later one is
refused. -/
def loadAllShards (shardBytes : ShardId → Option Bytes) (s : ShardedStorage) :
    List ShardId → ShardedStorage × Except DatabaseError Unit
  | [] => (s, .ok ())
  | g :: rest =>
    match loadShard shardBytes s g with
    | .error e => (s, .error e)
    | .ok s => loadAllShards shardBytes s rest

theorem containsOffset_iff (s : ShardedStorage) (eventOffset : ℕ) :
    s.containsOffset eventOffset = true ↔ ∃ bytes, s.getEvent eventOffset = .ok (some bytes) :=
  RingBuffer.containsOffset_iff _ _

/-! ### The rings as windows on the logs of their shards -/

/-- Every ring is a window on the log of its shard, and small. -/
structure Holds (s : ShardedStorage) (history : ShardId → List Bytes) : Prop where
  window : ∀ g, ∃ k, (s.shards g).Window (history g) k
  length_le : ∀ g, (s.shards g).buffer.length ≤ 2 ^ 32
  capacity_le : ∀ g, (s.shards g).maxBufferSize ≤ 2 ^ 32

theorem holds_newDefault {legacyDefaultCapacity : ℕ}
    (h : legacyDefaultCapacity + legacyDedicatedBytes ≤ 2 ^ 32) :
    (newDefault legacyDefaultCapacity).Holds fun _ => [] :=
  ⟨fun _ => ⟨0, RingBuffer.window_new _⟩, fun _ => Nat.zero_le _,
    fun g => (shardCapacity_le legacyDefaultCapacity g).trans h⟩

variable {s : ShardedStorage} {history : ShardId → List Bytes}

theorem Holds.initializeStorage (h : s.Holds history) : s.initializeStorage.Holds history :=
  ⟨fun g => (h.window g).imp fun _ hk => hk.initializeStorage, h.length_le, h.capacity_le⟩

/-- **Adding an event** extends the log of the shard of its kind; the offset is
the packed place of the event.  Or it is too large, and nothing changes. -/
theorem Holds.addEventForKind
    (h : s.Holds history) (kind : ℕ) {eventData : Bytes} (hne : eventData ≠ []) :
    (∃ e, s.addEventForKind kind eventData = .error e) ∨
      ∃ s', s.addEventForKind kind eventData = .ok (s', packOffset (ShardId.fromKind kind)
          (framePos (history (ShardId.fromKind kind)) (history (ShardId.fromKind kind)).length)) ∧
        s'.Holds (Function.update history (ShardId.fromKind kind)
          (history (ShardId.fromKind kind) ++ [eventData])) ∧
        ∀ g, (s'.shards g).initialized = (s.shards g).initialized := by
  unfold ShardedStorage.addEventForKind
  dsimp only
  generalize ShardId.fromKind kind = g
  by_cases hlarge : 4 + eventData.length > (s.shards g).maxBufferSize
  · left
    rw [RingBuffer.addEvent, if_pos hlarge]
    exact ⟨_, rfl⟩
  · right
    obtain ⟨k, hwin⟩ := h.window g
    have hcap := h.capacity_le g
    have hdata : RingBuffer.Storable eventData := ⟨hne, by omega⟩
    obtain ⟨k', r', hadd, -, hwin', hmax, hinit, hlen⟩ :=
      hwin.addEvent hdata (Nat.le_of_not_lt hlarge)
    rw [hadd]
    refine ⟨_, rfl, ⟨?_, ?_, ?_⟩, ?_⟩
    · intro g'
      by_cases hg : g' = g
      · subst hg
        exact ⟨k', by simpa only [Function.update_self] using hwin'⟩
      · simpa only [Function.update_of_ne hg] using h.window g'
    · exact (Function.forall_update_iff s.shards fun _ r => r.buffer.length ≤ 2 ^ 32).mpr
        ⟨by omega, fun g' _ => h.length_le g'⟩
    · exact (Function.forall_update_iff s.shards fun _ r => r.maxBufferSize ≤ 2 ^ 32).mpr
        ⟨by omega, fun g' _ => h.capacity_le g'⟩
    · exact (Function.forall_update_iff s.shards
        fun g' r => r.initialized = (s.shards g').initialized).mpr ⟨hinit, fun _ _ => rfl⟩

/-- **A live offset reads its own event.**  The place in the ring may have
outgrown its 56 bits: the truncated offset is then below the head. -/
theorem Holds.getEvent (h : s.Holds history) {g : ShardId} {i : ℕ} {bytes : Bytes}
    (hget : (history g)[i]? = some bytes)
    (hlive : s.containsOffset (packOffset g (framePos (history g) i)) = true) :
    s.getEvent (packOffset g (framePos (history g) i)) = .ok (some bytes) := by
  obtain ⟨k, hwin⟩ := h.window g
  have hlen := h.length_le g
  unfold ShardedStorage.getEvent
  unfold ShardedStorage.containsOffset at hlive
  rw [unpackOffset_packOffset] at hlive ⊢
  dsimp only at hlive ⊢
  have hhead := RingBuffer.containsOffset_head hlive
  by_cases hk : i < k
  · -- evicted: no truncation brings the offset back above the head
    have hlt := framePos_lt hk hwin.le
    have hmod := Nat.mod_le (framePos (history g) i) (2 ^ 56)
    rw [hwin.head] at hhead
    omega
  · obtain ⟨rest, -, hle, hbuf⟩ := hwin.split (Nat.le_of_not_lt hk) hget
    have hsmall : framePos (history g) i < 2 ^ 56 := by
      by_contra hbig
      omega
    rw [Nat.mod_eq_of_lt hsmall] at hlive ⊢
    have hread := hwin.getEventAtOffset (RingBuffer.containsOffset_initialized hlive) hget
    rw [hread, if_neg hk]

theorem Holds.live_addEventForKind {s' : ShardedStorage}
    (h : s.Holds history) (hinit : ∀ g, (s.shards g).initialized = true) {kind offset : ℕ}
    {eventData : Bytes} (hne : eventData ≠ [])
    (hsmall : framePos (history (ShardId.fromKind kind)) (history (ShardId.fromKind kind)).length
      < 2 ^ 56) (hadd : s.addEventForKind kind eventData = .ok (s', offset)) :
    s'.containsOffset offset = true := by
  unfold ShardedStorage.addEventForKind at hadd
  dsimp only at hadd
  generalize ShardId.fromKind kind = g at hadd hsmall
  obtain ⟨k, hwin⟩ := h.window g
  have hcap := h.capacity_le g
  rcases hring : (s.shards g).addEvent eventData with e | ⟨r, inner⟩ <;> rw [hring] at hadd
  · cases hadd
  · cases hadd
    have hfit : 4 + eventData.length ≤ (s.shards g).maxBufferSize := by
      by_contra hlarge
      rw [RingBuffer.addEvent, if_pos (by omega)] at hring
      cases hring
    have hdata : RingBuffer.Storable eventData := ⟨hne, by omega⟩
    have hlive := hwin.live_addEvent (hinit g) hdata hring
    obtain ⟨k', r', hadd, -⟩ := hwin.addEvent hdata hfit
    obtain ⟨rfl, rfl⟩ := Prod.mk.inj (Except.ok.inj (hadd.symm.trans hring))
    unfold ShardedStorage.containsOffset
    rw [unpackOffset_packOffset]
    dsimp only
    rw [Function.update_self, Nat.mod_eq_of_lt hsmall]
    exact hlive

end ShardedStorage

end Nipworker
