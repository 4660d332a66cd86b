/-
Loading all shards, and what is left when one is refused (`load_all_shards` in
`storage/db/sharded_storage.rs`, `load_from_bytes` in `storage/db/ring_buffer.rs`).

A ring checks its blob before it takes it over, so that one shard is loaded whole or not at
all.  The shards are checked and taken over one after another, and the first refusal ends
the walk: what was taken over before stays.
-/
import Nipworker.Storage.Snapshot

namespace Nipworker

open List

namespace RingBuffer

/-- The blob is a log of payloads. -/
def IsLog (bytes : Bytes) : Prop :=
  ∃ payloads : List Bytes, (∀ payload ∈ payloads, Storable payload) ∧ bytes = frameLog payloads

/-- **The blobs a ring accepts.** -/
theorem validateLog_eq_ok_iff (bytes : Bytes) (p : ℕ) :
    validateLog p bytes = .ok () ↔ IsLog bytes := by
  constructor
  · induction p, bytes using validateLog.induct with
    | case1 p hshort =>
      intro _
      exact ⟨[], by simp, rfl⟩
    | case2 p rest hshort hne =>
      intro h
      rw [validateLog, if_pos hshort, if_neg hne] at h
      contradiction
    | case3 p rest hlong size hzero =>
      intro h
      rw [validateLog, if_neg hlong] at h
      dsimp only at h
      rw [if_pos (show U32.ofLeBytes rest = 0 from hzero)] at h
      contradiction
    | case4 p rest hlong size hzero hcut =>
      intro h
      rw [validateLog, if_neg hlong] at h
      dsimp only at h
      rw [if_neg (show ¬ U32.ofLeBytes rest = 0 from hzero),
        if_pos (show 4 + U32.ofLeBytes rest > rest.length from hcut)] at h
      contradiction
    | case5 p rest hlong size hzero hfits ih =>
      intro h
      rw [validateLog, if_neg hlong] at h
      dsimp only at h
      rw [if_neg (show ¬ U32.ofLeBytes rest = 0 from hzero),
        if_neg (show ¬ 4 + U32.ofLeBytes rest > rest.length from hfits)] at h
      obtain ⟨payloads, hst, hlog⟩ := ih h
      -- the first record is whole, and what follows it is a log
      have htake : takeFrame rest = some ((rest.drop 4).take size, rest.drop (4 + size)) := by
        rw [takeFrame, if_neg hlong]
        exact if_neg (show ¬ rest.length < 4 + size by omega)
      obtain ⟨hframe, hlen⟩ := eq_frame_append htake
      refine ⟨(rest.drop 4).take size :: payloads, ?_, ?_⟩
      · intro payload hp
        rcases List.mem_cons.mp hp with rfl | hrest
        · refine ⟨fun hnil => hzero ?_, hlen⟩
          have := congrArg List.length hnil
          rw [length_take, length_drop, length_nil] at this
          omega
        · exact hst payload hrest
      · rw [hlog] at hframe
        exact hframe
  · rintro ⟨payloads, hst, rfl⟩
    exact validateLog_frameLog payloads hst p

theorem loadFromBytes_cases (r : RingBuffer) (bytes : Bytes) :
    (IsLog bytes ∧ r.loadFromBytes bytes = .ok { r with buffer := bytes, headOffset := 0 }) ∨
      (¬ IsLog bytes ∧ ∃ e, r.loadFromBytes bytes = .error e) := by
  rw [loadFromBytes]
  cases hvalid : validateLog 0 bytes with
  | ok u =>
    exact .inl ⟨(validateLog_eq_ok_iff bytes 0).mp hvalid, rfl⟩
  | error e =>
    refine .inr ⟨fun hlog => ?_, e, rfl⟩
    rw [(validateLog_eq_ok_iff bytes 0).mpr hlog] at hvalid
    contradiction

end RingBuffer

namespace ShardedStorage

open RingBuffer

variable (shardBytes : ShardId → Option Bytes)

/-- The blob a shard is loaded from: shards that are not persistent are passed over. -/
def blobOf (g : ShardId) : Option Bytes := if g.isPersistent then shardBytes g else none

/-- The blob of the shard is no log. -/
def Refused (g : ShardId) : Prop := ∃ bytes, blobOf shardBytes g = some bytes ∧ ¬ IsLog bytes

def loaded (s : ShardedStorage) (g : ShardId) : RingBuffer :=
  match blobOf shardBytes g with
  | none => s.shards g
  | some bytes => { s.shards g with buffer := bytes, headOffset := 0 }

theorem loadShard_cases (s : ShardedStorage) (g : ShardId) :
    (¬ Refused shardBytes g ∧
      loadShard shardBytes s g = .ok ⟨Function.update s.shards g (loaded shardBytes s g)⟩) ∨
    (Refused shardBytes g ∧ ∃ e, loadShard shardBytes s g = .error e) := by
  have hnone : blobOf shardBytes g = none → ¬ Refused shardBytes g ∧
      Except.ok (ε := DatabaseError) s =
        .ok ⟨Function.update s.shards g (loaded shardBytes s g)⟩ := by
    intro hblob
    refine ⟨?_, ?_⟩
    · rintro ⟨bytes, hsome, -⟩
      rw [hblob] at hsome
      contradiction
    · rw [loaded, hblob, Function.update_eq_self]
  cases hbytes : shardBytes g with
  | none =>
    have hblob : blobOf shardBytes g = none := by
      rw [blobOf, hbytes]
      exact ite_self _
    obtain ⟨hnot, hsame⟩ := hnone hblob
    exact .inl ⟨hnot, by rw [← hsame]; simp only [loadShard, hbytes]⟩
  | some bytes =>
    cases hpersistent : g.isPersistent with
    | false =>
      have hblob : blobOf shardBytes g = none := by rw [blobOf, hpersistent, if_neg Bool.false_ne_true]
      obtain ⟨hnot, hsame⟩ := hnone hblob
      exact .inl ⟨hnot, by rw [← hsame]; simp only [loadShard, hbytes, hpersistent, if_true]⟩
    | true =>
      have hblob : blobOf shardBytes g = some bytes := by rw [blobOf, hpersistent, if_pos rfl, hbytes]
      rcases loadFromBytes_cases (s.shards g) bytes with ⟨hlog, hload⟩ | ⟨hnot, e, hload⟩
      · refine .inl ⟨?_, ?_⟩
        · rintro ⟨bytes', hsome, hbad⟩
          rw [Option.some.inj (hblob.symm.trans hsome)] at hlog
          exact hbad hlog
        · simp only [loadShard, loaded, hbytes, hpersistent, hload, hblob]
          rfl
      · refine .inr ⟨⟨bytes, hblob, hnot⟩, ?_⟩
        simp only [loadShard, hbytes, hpersistent, hload]
        exact ⟨_, rfl⟩

variable {shardBytes}

/-- **The walk** up to the first shard that is refused, or to its end. -/
theorem loadAllShards_until (walk : List ShardId) (hnodup : walk.Nodup) : ∀ s : ShardedStorage,
    ∃ before after, walk = before ++ after ∧ (∀ g ∈ before, ¬ Refused shardBytes g) ∧
      (∀ g, ((loadAllShards shardBytes s walk).1).shards g =
        if g ∈ before then loaded shardBytes s g else s.shards g) ∧
      ((after = [] ∧ (loadAllShards shardBytes s walk).2 = .ok ()) ∨
        (∃ g rest e, after = g :: rest ∧ Refused shardBytes g ∧
          (loadAllShards shardBytes s walk).2 = .error e)) := by
  induction walk with
  | nil => exact fun s => ⟨[], [], rfl, by simp, fun g => rfl, .inl ⟨rfl, rfl⟩⟩
  | cons g walk ih =>
    intro s
    obtain ⟨hfresh, hnodup'⟩ := List.nodup_cons.mp hnodup
    rcases loadShard_cases shardBytes s g with ⟨hnot, hload⟩ | ⟨hrefused, e, hload⟩
    · obtain ⟨before, after, hwalk, hbefore, hshards, hend⟩ :=
        ih hnodup' ⟨Function.update s.shards g (loaded shardBytes s g)⟩
      have hstep : loadAllShards shardBytes s (g :: walk) =
          loadAllShards shardBytes ⟨Function.update s.shards g (loaded shardBytes s g)⟩ walk := by
        simp only [loadAllShards, hload]
      rw [hstep]
      refine ⟨g :: before, after, by rw [hwalk, cons_append], ?_, fun g' => ?_, hend⟩
      · exact fun g' hg' => (List.mem_cons.mp hg').elim (fun h => h ▸ hnot) (hbefore g')
      · rw [hshards]
        by_cases hg : g' = g
        · -- the shard is not walked a second time
          subst hg
          have hnotin : g' ∉ before := fun h => hfresh (hwalk ▸ mem_append_left _ h)
          rw [if_neg hnotin, if_pos mem_cons_self]
          exact Function.update_self _ _ _
        · have hother : ∀ r, Function.update s.shards g r g' = s.shards g' := fun r =>
            Function.update_of_ne hg _ _
          have hloaded : loaded shardBytes ⟨Function.update s.shards g (loaded shardBytes s g)⟩ g' =
              loaded shardBytes s g' := by
            simp only [loaded, hother]
          by_cases hmem : g' ∈ before
          · rw [if_pos hmem, if_pos (mem_cons_of_mem _ hmem), hloaded]
          · rw [if_neg hmem, if_neg (fun h => (List.mem_cons.mp h).elim hg hmem)]
            exact hother _
    · have hstep : loadAllShards shardBytes s (g :: walk) = (s, .error e) := by
        simp only [loadAllShards, hload]
      rw [hstep]
      exact ⟨[], g :: walk, rfl, by simp, fun g' => rfl, .inr ⟨g, walk, e, rfl, hrefused, rfl⟩⟩

/-! ### All or nothing -/

variable (shardBytes)

def walkOf (order : IterOrder ShardId) : List ShardId :=
  order.order (ShardId.all.filter fun g => (shardBytes g).isSome)

theorem nodup_walkOf (order : IterOrder ShardId) : (walkOf shardBytes order).Nodup := by
  rw [walkOf, (order.perm _).nodup_iff]
  exact List.Nodup.filter _ (by decide)

variable {g : ShardId} {s : ShardedStorage}

theorem mem_walkOf_of_blobOf (order : IterOrder ShardId) {bytes : Bytes}
    (h : blobOf shardBytes g = some bytes) : g ∈ walkOf shardBytes order := by
  rw [walkOf, (order.perm _).mem_iff, mem_filter]
  refine ⟨ShardId.mem_all g, ?_⟩
  rw [blobOf] at h
  by_cases hpersistent : g.isPersistent = true
  · rw [if_pos hpersistent] at h
    rw [h, Option.isSome_some]
  · rw [if_neg hpersistent] at h
    contradiction

/-- Loading as it should be: after an error everything is as before, and otherwise every
persistent shard with a blob holds exactly the records of its blob, and the others are as
before. -/
def AllOrNothing (s : ShardedStorage) (walk : List ShardId) : Prop :=
  (∀ e, (loadAllShards shardBytes s walk).2 = .error e → (loadAllShards shardBytes s walk).1 = s) ∧
  ((loadAllShards shardBytes s walk).2 = .ok () → ∀ g,
    (∀ bytes, blobOf shardBytes g = some bytes → ∃ payloads : List Bytes,
      (∀ payload ∈ payloads, Storable payload) ∧ bytes = frameLog payloads ∧
        (loadAllShards shardBytes s walk).1.shards g = (s.shards g).reloaded payloads) ∧
    (blobOf shardBytes g = none → (loadAllShards shardBytes s walk).1.shards g = s.shards g))

/-- Every shard that is walked before the first refused one holds its blob already, from
offset zero on. -/
def UnchangedUntilRefused (s : ShardedStorage) (walk : List ShardId) : Prop :=
  ∀ before g after, walk = before ++ g :: after → Refused shardBytes g →
    (∀ g' ∈ before, ¬ Refused shardBytes g') → ∀ g' ∈ before, ∀ bytes,
      blobOf shardBytes g' = some bytes →
        (s.shards g').saveToBytes = bytes ∧ (s.shards g').headOffset = 0

variable {shardBytes}

theorem before_unique {α : Type*} {P : α → Prop} {before before' after after' : List α} {a a' : α}
    (heq : before ++ a :: after = before' ++ a' :: after') (ha : P a) (ha' : P a')
    (hbefore : ∀ b ∈ before, ¬ P b) (hbefore' : ∀ b ∈ before', ¬ P b) : before = before' := by
  induction before generalizing before' with
  | nil =>
    cases before' with
    | nil => rfl
    | cons b' before' =>
      rw [nil_append, cons_append] at heq
      exact absurd ((List.cons.inj heq).1 ▸ ha) (hbefore' b' mem_cons_self)
  | cons b before ih =>
    cases before' with
    | nil =>
      rw [nil_append, cons_append] at heq
      exact absurd ((List.cons.inj heq).1 ▸ ha') (hbefore b mem_cons_self)
    | cons b' before' =>
      rw [cons_append, cons_append] at heq
      obtain ⟨rfl, hrest⟩ := List.cons.inj heq
      rw [ih hrest (fun c hc => hbefore c (mem_cons_of_mem _ hc))
        (fun c hc => hbefore' c (mem_cons_of_mem _ hc))]

theorem loaded_of_none (h : blobOf shardBytes g = none) : loaded shardBytes s g = s.shards g := by
  rw [loaded, h]

theorem loaded_of_some {bytes : Bytes} (h : blobOf shardBytes g = some bytes) :
    loaded shardBytes s g = { s.shards g with buffer := bytes, headOffset := 0 } := by
  rw [loaded, h]

theorem loaded_eq_iff {bytes : Bytes} (h : blobOf shardBytes g = some bytes) :
    loaded shardBytes s g = s.shards g ↔
      (s.shards g).saveToBytes = bytes ∧ (s.shards g).headOffset = 0 := by
  rw [loaded_of_some h]
  constructor
  · intro heq
    exact ⟨(congrArg RingBuffer.buffer heq).symm, (congrArg RingBuffer.headOffset heq).symm⟩
  · rintro ⟨hbytes, hhead⟩
    rw [← hbytes, ← hhead]
    rfl

/-- **When loading is all or nothing**: exactly when the shards that are walked before the
first refused one hold their blobs already. -/
theorem allOrNothing_iff (shardBytes : ShardId → Option Bytes) (s : ShardedStorage)
    (order : IterOrder ShardId) :
    AllOrNothing shardBytes s (walkOf shardBytes order) ↔
      UnchangedUntilRefused shardBytes s (walkOf shardBytes order) := by
  obtain ⟨before, after, hwalk, hbefore, hshards, hend⟩ :=
    loadAllShards_until _ (nodup_walkOf shardBytes order) s
  constructor
  · rintro ⟨herror, -⟩ before' g after' hwalk' hrefused hbefore' g' hg' bytes hbytes
    -- the walk ends at the first refused shard
    rcases hend with ⟨rfl, -⟩ | ⟨g₀, rest, e, rfl, hrefused₀, hresult⟩
    · rw [append_nil] at hwalk
      exact absurd hrefused (hbefore g (by rw [← hwalk, hwalk']; simp))
    · obtain rfl := before_unique (hwalk'.symm.trans hwalk) hrefused hrefused₀ hbefore' hbefore
      have hsame := hshards g'
      rw [if_pos hg', herror e hresult] at hsame
      exact (loaded_eq_iff hbytes).mp hsame.symm
  · intro hquiet
    refine ⟨fun e herror => ?_, fun hok g => ?_⟩
    · rcases hend with ⟨-, hresult⟩ | ⟨g₀, rest, e₀, rfl, hrefused₀, -⟩
      · rw [hresult] at herror
        contradiction
      · refine congrArg ShardedStorage.mk (funext fun g => ?_)
        rw [hshards g]
        by_cases hg : g ∈ before
        · rw [if_pos hg]
          cases hblob : blobOf shardBytes g with
          | none => exact loaded_of_none hblob
          | some bytes =>
            exact (loaded_eq_iff hblob).mpr
              (hquiet before g₀ rest hwalk hrefused₀ hbefore g hg bytes hblob)
        · rw [if_neg hg]
    · rcases hend with ⟨rfl, -⟩ | ⟨g₀, rest, e₀, -, -, hresult⟩
      · rw [append_nil] at hwalk
        refine ⟨fun bytes hbytes => ?_, fun hnone => ?_⟩
        · have hmem : g ∈ before := hwalk ▸ mem_walkOf_of_blobOf shardBytes order hbytes
          have hlog : IsLog bytes := by
            by_contra hnot
            exact hbefore g hmem ⟨bytes, hbytes, hnot⟩
          obtain ⟨payloads, hst, hlog⟩ := hlog
          refine ⟨payloads, hst, hlog, ?_⟩
          rw [hshards g, if_pos hmem, loaded_of_some hbytes, hlog]
          rfl
        · rw [hshards g, loaded_of_none hnone, ite_self]
      · rw [hresult] at hok
        contradiction

/-- One record for the default shard, and a blob that is cut off for the profiles. -/
def cutProfiles : ShardId → Option Bytes
  | .default => some (frameLog [[7]])
  | .profile => some [1]
  | _ => none

/-- The default shard is walked first, and keeps its record when the profiles are refused. -/
theorem refusal_keeps_loaded :
    ¬ AllOrNothing cutProfiles (newDefault 1000)
      (walkOf cutProfiles (IterOrder.entries ShardId)) := by
  rintro ⟨herror, -⟩
  have hwalk : walkOf cutProfiles (IterOrder.entries ShardId) = [.default, .profile] := by decide
  have hdefault : loadShard cutProfiles (newDefault 1000) .default =
      .ok ⟨Function.update (newDefault 1000).shards .default
        (((newDefault 1000).shards .default).reloaded [[7]])⟩ := by
    have hvalid : validateLog 0 (frameLog [[7]]) = .ok () :=
      validateLog_frameLog [[7]] (by simp [Storable]) 0
    simp only [loadShard, cutProfiles, loadFromBytes, hvalid]
    rfl
  have hprofile : ∀ s, ∃ e, loadShard cutProfiles s .profile = .error e := by
    intro s
    have hvalid : validateLog 0 [1] = .error ("Trailing bytes at position " ++ toString 0 ++ ": "
        ++ toString 1 ++ " bytes remaining") := by
      rw [validateLog]
      rfl
    simp only [loadShard, cutProfiles, loadFromBytes, hvalid]
    exact ⟨_, rfl⟩
  obtain ⟨e, he⟩ := hprofile ⟨Function.update (newDefault 1000).shards .default
    (((newDefault 1000).shards .default).reloaded [[7]])⟩
  have hrun : loadAllShards cutProfiles (newDefault 1000) [.default, .profile] =
      (⟨Function.update (newDefault 1000).shards .default
        (((newDefault 1000).shards .default).reloaded [[7]])⟩, .error e) := by
    simp only [loadAllShards, hdefault, he]
  rw [hwalk] at herror
  have hsame := herror e (by rw [hrun])
  rw [hrun] at hsame
  have hring := congrArg (fun s => (s.shards .default).buffer) hsame
  dsimp only at hring
  rw [Function.update_self] at hring
  exact absurd hring (by decide)

end ShardedStorage

end Nipworker
