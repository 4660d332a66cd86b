/-
Rebuilding the index from the stored bytes (`rebuild_indexes_from_storage`).

After a restart nothing is left of the index: the events are read back from
the rings, shard by shard, and indexed again under new keys and offsets.
-/
import Nipworker.Storage.Fate
import Nipworker.Storage.NostrDb

namespace Nipworker

open List

/-! ### Sets that are allocated in advance -/

theorem lookup_foldl_insert_empty {K : Type} [DecidableEq K] (p : K → Prop) [DecidablePred p]
    (keys : List K) : ∀ (m : Multimap K EventKey), (∀ k, m.bucket k = ∅) →
    ∀ k, (keys.foldl (fun m k => if p k then AList.insert k ∅ m else m) m : Multimap K EventKey).bucket
      k = ∅ := by
  induction keys with
  | nil => exact fun _ h => h
  | cons a rest ih =>
    intro m h
    refine ih _ fun k => ?_
    dsimp only
    split
    · rw [Multimap.bucket, Map.lookup_insert_ite]
      split
      · rfl
      · exact h k
    · exact h k

def preallocated (evs : List Event) : IndexState :=
  { IndexState.empty with indexes := NostrDB.preallocate DatabaseIndexes.new evs }

theorem represents_preallocated (evs : List Event) : (preallocated evs).indexes.Represents [] := by
  have hkind : ∀ k, (preallocated evs).indexes.eventsByKind.bucket k = ∅ := by
    have h := lookup_foldl_insert_empty (fun _ : UInt16 => True) (evs.map Event.kind).dedup ∅
      (fun _ => rfl)
    simp only [if_true] at h
    exact h
  have hpubkey : ∀ pk, (preallocated evs).indexes.eventsByPubkey.bucket pk = ∅ :=
    lookup_foldl_insert_empty _ (evs.map Event.pubkey).dedup ∅ (fun _ => rfl)
  have hnew := DatabaseIndexes.represents_new
  refine ⟨hnew.indexed, hnew.createdAt, hnew.inj, hnew.fresh, hnew.byKey, ?_, ?_, hnew.byTag⟩
  · intro k key
    rw [hkind]
    simp
  · intro pk key
    rw [hpubkey]
    simp

/-- The sets that are allocated in advance change nothing: a rebuilt index tracks every
target like an empty one. -/
theorem tracks_preallocated (t : Event) (evs : List Event) :
    Tracks t [] (preallocated evs) Fate.init :=
  let h := tracks_empty t
  ⟨represents_preallocated evs, h.known, h.arrived, h.hidden, h.pending, h.addressed⟩

/-! ### Reading every listed offset -/

namespace ShardedStorage

/-- Everything in the rings, oldest first and shard by shard, with its place. -/
def contents (history : ShardId → List Bytes) (k : ShardId → ℕ) : List (ℕ × Bytes) :=
  ShardId.all.flatMap fun g => (List.range ((history g).length - k g)).map fun j =>
    (packOffset g (framePos (history g) (k g + j)), (history g).getD (k g + j) [])

variable {history : ShardId → List Bytes} {k : ShardId → ℕ}

theorem mem_contents {bytes : Bytes} :
    (∃ offset, (offset, bytes) ∈ contents history k) ↔ ∃ g, bytes ∈ (history g).drop (k g) := by
  constructor
  · rintro ⟨offset, h⟩
    obtain ⟨g, -, h⟩ := List.mem_flatMap.mp h
    obtain ⟨j, hj, heq⟩ := List.mem_map.mp h
    rw [mem_range] at hj
    cases heq
    refine ⟨g, mem_iff_getElem?.mpr ⟨j, ?_⟩⟩
    rw [List.getElem?_drop, getD_eq_getElem?_getD, List.getElem?_eq_getElem (by omega),
      Option.getD_some]
  · rintro ⟨g, h⟩
    obtain ⟨j, hj⟩ := mem_iff_getElem?.mp h
    rw [List.getElem?_drop] at hj
    have hlt := (List.getElem?_eq_some_iff.mp hj).1
    refine ⟨packOffset g (framePos (history g) (k g + j)), List.mem_flatMap.mpr
      ⟨g, ShardId.mem_all g, List.mem_map.mpr ⟨j, ?_, ?_⟩⟩⟩
    · rw [mem_range]
      omega
    · rw [getD_eq_getElem?_getD, hj, Option.getD_some]

theorem contents_nil (h : ∀ g, history g = []) : contents history k = [] := by
  rw [contents, flatMap_eq_nil_iff]
  intro g _
  rw [h, length_nil, Nat.zero_sub]
  rfl

/-- **Every offset that is listed can be read**, as long as the logs are short
enough for their offsets. -/
theorem read_loadEvents {s : ShardedStorage} (hwin : ∀ g, (s.shards g).Window (history g) (k g))
    (hinit : ∀ g, (s.shards g).initialized = true)
    (hsmall : ∀ g, (frameLog (history g)).length < 2 ^ 56) :
    s.loadEvents = (contents history k).map Prod.fst ∧
      ∀ entry ∈ contents history k, s.getEvent entry.1 = .ok (some entry.2) := by
  constructor
  · rw [loadEvents, contents, map_flatMap]
    refine congrArg (List.flatMap · ShardId.all) (funext fun g => ?_)
    rw [(hwin g).loadEvents, map_map, map_map]
    rfl
  · intro entry hentry
    obtain ⟨g, -, hentry⟩ := List.mem_flatMap.mp hentry
    obtain ⟨j, hj, rfl⟩ := List.mem_map.mp hentry
    rw [mem_range] at hj
    have hget : (history g)[k g + j]? = some ((history g).getD (k g + j) []) := by
      rw [getD_eq_getElem?_getD, List.getElem?_eq_getElem (by omega), Option.getD_some]
    have hpos : framePos (history g) (k g + j) < 2 ^ 56 := by
      refine lt_of_le_of_lt ?_ (hsmall g)
      rw [← framePos_length]
      exact framePos_le (by omega) (le_refl _)
    rw [getEvent, unpackOffset_packOffset]
    dsimp only
    rw [Nat.mod_eq_of_lt hpos, (hwin g).getEventAtOffset (hinit g) hget, if_neg (by omega)]

end ShardedStorage

/-! ### The rebuilt index -/

def indexOp (fb : FlatBuffers) (entry : ℕ × Bytes) : Option IndexOp :=
  (fb.storedEvent entry.2).map fun ev => .index ev entry.1

variable (fb : FlatBuffers)

theorem indexMessage_eq_run (st : IndexState) (entry : ℕ × Bytes) :
    (match fb.storedMessage entry.2 with
      | some msg => NostrDB.indexMessage st msg entry.1
      | none => st) = st.run (indexOp fb entry).toList := by
  unfold indexOp FlatBuffers.storedEvent
  rcases fb.storedMessage entry.2 with _ | ev | ev | _ <;> rfl

theorem IndexState.run_append (st : IndexState) (ops ops' : List IndexOp) :
    st.run (ops ++ ops') = (st.run ops).run ops' := foldl_append

theorem foldl_indexOp (index : IndexState → Bytes × ℕ → IndexState)
    (h : ∀ st entry, index st (Prod.swap entry) = st.run (indexOp fb entry).toList)
    (entries : List (ℕ × Bytes)) : ∀ st : IndexState,
    (entries.map Prod.swap).foldl index st = st.run (entries.filterMap (indexOp fb)) := by
  induction entries with
  | nil => exact fun _ => rfl
  | cons entry rest ih =>
    intro st
    rw [map_cons, foldl_cons, ih, h, ← IndexState.run_append]
    refine congrArg st.run ?_
    rcases hop : indexOp fb entry with _ | op
    · rw [filterMap_cons_none hop]
      rfl
    · rw [filterMap_cons_some hop]
      rfl

/-- **The rebuilt index** is a run of index calls, one for each stored event,
over nothing but allocated sets. -/
theorem NostrDB.rebuild_index (db : NostrDB) {entries : List (ℕ × Bytes)}
    (hload : db.storage.loadEvents = entries.map Prod.fst)
    (hread : ∀ entry ∈ entries, db.storage.getEvent entry.1 = .ok (some entry.2)) :
    (db.rebuildIndexesFromStorage fb).index
      = (preallocated ((entries.map Prod.snd).filterMap fb.storedEvent)).run
          (entries.filterMap (indexOp fb)) := by
  have hraw : ∀ f : ℕ → Option Bytes, (∀ entry ∈ entries, f entry.1 = some entry.2) →
      (entries.map Prod.fst).filterMap f = entries.map Prod.snd := by
    intro f hf
    rw [filterMap_map, ← filterMap_eq_map]
    exact filterMap_congr hf
  have hzip : (entries.map Prod.snd).zip (entries.map Prod.fst) = entries.map Prod.swap := by
    rw [zip_map']
    rfl
  unfold rebuildIndexesFromStorage
  dsimp only
  rw [hload]
  rcases entries with _ | ⟨entry, rest⟩
  · rfl
  · rw [if_neg (by simp)]
    unfold buildIndexesFromEvents
    dsimp only
    rw [hraw _ fun entry hentry => by rw [hread entry hentry], hzip,
      foldl_indexOp fb _ (indexMessage_eq_run fb)]
    rfl

theorem NostrDB.rebuild_storage (db : NostrDB) :
    (db.rebuildIndexesFromStorage fb).storage = db.storage := by
  unfold rebuildIndexesFromStorage
  dsimp only
  split <;> rfl

/-! ### A covered event stays hidden -/

namespace Fate

variable {t : Event}

theorem arrived_step {f : Fate} (op : IndexOp) (h : f.arrived = true) :
    (step t f op).arrived = true := by
  cases op with
  | index ev offset =>
    simp only [step]
    split <;> split <;> simp [arrive, delete, h]
  | replay ev =>
    simp only [step]
    split <;> simp [delete, h]

theorem hidden_step {f : Fate} (op : IndexOp) (h : f.hidden = true) :
    (step t f op).hidden = true := by
  cases op with
  | index ev offset =>
    simp only [step]
    split <;> split <;> simp [arrive, delete, h]
  | replay ev =>
    simp only [step]
    split <;> simp [delete, h]

theorem arrived_run (ops : List IndexOp) : ∀ {f : Fate}, f.arrived = true →
    (run t f ops).arrived = true := by
  induction ops with
  | nil => exact id
  | cons op rest ih => exact fun h => ih (arrived_step op h)

theorem hidden_run (ops : List IndexOp) : ∀ {f : Fate}, f.hidden = true →
    (run t f ops).hidden = true := by
  induction ops with
  | nil => exact id
  | cons op rest ih => exact fun h => ih (hidden_step op h)

theorem run_append (f : Fate) (ops ops' : List IndexOp) :
    run t f (ops ++ ops') = run t (run t f ops) ops' := foldl_append

/-- **An event that is indexed and then met by a deletion that covers it is
hidden**, whatever else is indexed and replayed. -/
theorem hidden_of_replayed {indexed replayed : List IndexOp} {offset : ℕ} {del : Event} (f : Fate)
    (ht : IndexOp.index t offset ∈ indexed) (hdel : IndexOp.replay del ∈ replayed)
    (hkind : del.kind = eventDeletion) (hcovers : covers del t = true) :
    (run t f (indexed ++ replayed)).hidden = true := by
  obtain ⟨before, after, rfl⟩ := append_of_mem ht
  obtain ⟨before', after', rfl⟩ := append_of_mem hdel
  have harrived : (run t f (before ++ IndexOp.index t offset :: after)).arrived = true := by
    rw [run_append]
    refine arrived_run after ?_
    simp only [step, if_true]
    split <;> rfl
  rw [run_append, run_append]
  refine hidden_run after' ?_
  have harrived' := arrived_run (t := t) before' harrived
  simp only [step, hkind, if_true, delete, harrived', hcovers, Bool.and_self, Bool.or_true]

end Fate

end Nipworker
