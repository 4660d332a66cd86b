/-
The secondary sets of the index, over whole runs of indexing.

`DatabaseIndexes.Represents` compares the indexes with the events they were
filled from.  Here the same is said from the side of the keys: which sets a
live key stands in, and that no set holds a key without a record.
-/
import Nipworker.Storage.NostrDb
import Nipworker.Storage.OrderIndependence

namespace Nipworker

open List

namespace DatabaseIndexes

/-- Some index lists the key. -/
def Listed (ix : DatabaseIndexes) (key : EventKey) : Prop :=
  (∃ k, key ∈ ix.eventsByKind.bucket k) ∨ (∃ pk, key ∈ ix.eventsByPubkey.bucket pk) ∨
    ∃ n v, key ∈ (ix.eventsByTag n).bucket v

/-- A record has the creation time of its event, and its key stands in exactly
the sets that the fields of the event call for. -/
structure FiledUnder (ix : DatabaseIndexes) (ev : Event) (r : EventRecord) : Prop where
  createdAt : r.createdAt = ev.createdAt
  kind : ∀ k, r.key ∈ ix.eventsByKind.bucket k ↔ k = ev.kind
  pubkey : ∀ pk, r.key ∈ ix.eventsByPubkey.bucket pk ↔ pk = ev.pubkey
  tag : ∀ n v, r.key ∈ (ix.eventsByTag n).bucket v ↔ ev.HasTag n.text v

/-- The indexes are those of the events of the calls. -/
structure IndexesOf (ix : DatabaseIndexes) (calls : List (StoredEvent × ℕ)) : Prop where
  /-- A record is there for exactly the ids of the calls. -/
  recorded : ∀ id, (∃ r, ix.eventsById.lookup id = some r) ↔ ∃ c ∈ calls, c.1.event.id = id
  /-- `eventsByKey` is the inverse of `eventsById`. -/
  inverse : ∀ key r, ix.eventsByKey.lookup key = some r ↔
    r.key = key ∧ ∃ id, ix.eventsById.lookup id = some r
  /-- Two ids never share a key. -/
  ownKey : ∀ id id' r r', ix.eventsById.lookup id = some r → ix.eventsById.lookup id' = some r' →
    r.key = r'.key → id = id'
  /-- Keys are small: there are no more of them than distinct ids. -/
  small : ∀ id r, ix.eventsById.lookup id = some r →
    r.key < (calls.map fun c => c.1.event.id).toFinset.card
  /-- A live key is in the sets of its event and in no others. -/
  filed : ∀ c ∈ calls, ∀ r, ix.eventsById.lookup c.1.event.id = some r → ix.FiledUnder c.1.event r
  /-- A key in a set has a record. -/
  live : ∀ key, ix.Listed key → ∃ r, ix.eventsByKey.lookup key = some r

/-! ### From events to keys -/

variable {ix : DatabaseIndexes} {evs : List Event}

theorem Represents.mem_iff_of_record (hrep : Represents ix evs) (hdet : DeterminedIds evs)
    {P : Event → Prop} {set : Finset EventKey}
    (hset : ∀ key, key ∈ set ↔ ∃ ev ∈ evs, P ev ∧ ix.HasKey ev.id key) {ev : Event}
    (hev : ev ∈ evs) {r : EventRecord} (hr : ix.record ev.id = some r) : r.key ∈ set ↔ P ev := by
  rw [hset]
  constructor
  · rintro ⟨x, hx, hP, hkey⟩
    -- the key leads back to the id, and the id to the event
    have hid : x.id = ev.id := hrep.inj x.id ev.id r.key hkey ⟨r, hr, rfl⟩
    rwa [← hdet x hx ev hev hid]
  · intro hP
    exact ⟨ev, hev, hP, r, hr, rfl⟩

theorem Represents.filedUnder (hrep : Represents ix evs) (hdet : DeterminedIds evs) {ev : Event}
    (hev : ev ∈ evs) {r : EventRecord} (hr : ix.record ev.id = some r) : ix.FiledUnder ev r := by
  refine ⟨hrep.createdAt ev hev r hr, ?_, ?_, ?_⟩
  · intro k
    rw [hrep.mem_iff_of_record hdet (P := fun x => x.kind = k) (hrep.byKind k) hev hr]
    exact eq_comm
  · intro pk
    rw [hrep.mem_iff_of_record hdet (P := fun x => x.pubkey = pk) (hrep.byPubkey pk) hev hr]
    exact eq_comm
  · intro n v
    exact hrep.mem_iff_of_record hdet (P := fun x => x.HasTag n.text v) (hrep.byTag n v) hev hr

theorem Represents.hasKey_of_listed (hrep : Represents ix evs) {key : EventKey}
    (h : ix.Listed key) : ∃ id, ix.HasKey id key := by
  rcases h with ⟨k, hk⟩ | ⟨pk, hk⟩ | ⟨n, v, hk⟩
  · obtain ⟨ev, -, -, hkey⟩ := (hrep.byKind k key).mp hk
    exact ⟨ev.id, hkey⟩
  · obtain ⟨ev, -, -, hkey⟩ := (hrep.byPubkey pk key).mp hk
    exact ⟨ev.id, hkey⟩
  · obtain ⟨ev, -, -, hkey⟩ := (hrep.byTag n v key).mp hk
    exact ⟨ev.id, hkey⟩

end DatabaseIndexes

/-! ### Runs -/

variable (calls : List (StoredEvent × ℕ))

theorem indexAll_concat (c : StoredEvent × ℕ) :
    indexAll (calls ++ [c]) = indexStoredEvent (indexAll calls) c.1 c.2 := by
  rw [indexAll, foldl_append, indexAll]
  rfl

theorem indexAll_concat_indexes (c : StoredEvent × ℕ) :
    (indexAll (calls ++ [c])).indexes
      = ((indexAll calls).indexes.indexFields c.1.event c.2).1 := by
  rw [indexAll_concat, indexStoredEvent_eq, NostrDB.indexEvent_indexes]

/-- After any calls, repeated ids included, the indexes represent the events of the calls. -/
theorem indexAll_represents (hdet : DeterminedIds (calls.map fun c => c.1.event)) :
    (indexAll calls).indexes.Represents (calls.reverse.map fun c => c.1.event) := by
  induction calls using List.reverseRecOn with
  | nil => exact DatabaseIndexes.represents_new
  | append_singleton calls c ih =>
    rw [map_append] at hdet
    have hrep := ih (hdet.of_subset fun x hx => mem_append_left _ hx)
    rw [indexAll_concat_indexes, reverse_concat, map_cons]
    refine hrep.indexFields (hdet.of_subset fun x hx => ?_) c.2
    rcases List.mem_cons.mp hx with rfl | hx
    · exact mem_append_right _ (mem_singleton_self _)
    · rw [map_reverse, mem_reverse] at hx
      exact mem_append_left _ hx

/-- A key is handed out for each distinct id and never for a repeated one, so the 32 bits of
a key last for `2 ^ 32` ids. -/
theorem nextEventKey_indexAll (hdet : DeterminedIds (calls.map fun c => c.1.event)) :
    (indexAll calls).indexes.nextEventKey
      = (calls.map fun c => c.1.event.id).toFinset.card := by
  induction calls using List.reverseRecOn with
  | nil => rfl
  | append_singleton calls c ih =>
    have hpart : DeterminedIds (calls.map fun c => c.1.event) := by
      rw [map_append] at hdet
      exact hdet.of_subset fun x hx => mem_append_left _ hx
    have hknown := (indexAll_represents calls hpart).indexed c.1.event.id
    rw [← Option.isSome_iff_exists] at hknown
    rw [indexAll_concat_indexes, DatabaseIndexes.indexFields_nextEventKey, ih hpart,
      map_append, toFinset_append, map_singleton, toFinset_cons,
      toFinset_nil, insert_empty_eq, Finset.union_comm, Finset.singleton_union]
    have hmem : (∃ ev ∈ calls.reverse.map fun c => c.1.event, ev.id = c.1.event.id) ↔
        c.1.event.id ∈ (calls.map fun c => c.1.event.id).toFinset := by
      simp
    by_cases hin : c.1.event.id ∈ (calls.map fun c => c.1.event.id).toFinset
    · rw [if_pos (hknown.mpr (hmem.mpr hin)), Finset.insert_eq_of_mem hin]
    · rw [if_neg fun h => hin (hmem.mp (hknown.mp h)), Finset.card_insert_of_notMem hin]

/-- **The representation invariant of the indexes.**  After every sequence of
calls of `index_parsed_event` and `index_nostr_event`, in which ids may repeat
and an id determines its event, `eventsById` and `eventsByKey` are inverse to
each other, every live key stands in exactly the sets of its event, and no set
holds a key without a record. -/
theorem indexAll_indexesOf (calls : List (StoredEvent × ℕ))
    (hdet : DeterminedIds (calls.map fun c => c.1.event)) :
    (indexAll calls).indexes.IndexesOf calls := by
  have hrep := indexAll_represents calls hdet
  have hback : ∀ ev, ev ∈ calls.reverse.map (fun c => c.1.event) ↔ ∃ c ∈ calls, c.1.event = ev := by
    intro ev
    rw [map_reverse, mem_reverse, mem_map]
  have hdet' : DeterminedIds (calls.reverse.map fun c => c.1.event) := by
    refine hdet.of_subset fun x hx => ?_
    rwa [map_reverse, mem_reverse] at hx
  refine ⟨?_, hrep.byKey, ?_, ?_, ?_, ?_⟩
  · intro id
    rw [show (∃ r, (indexAll calls).indexes.eventsById.lookup id = some r) ↔ _ from hrep.indexed id]
    constructor
    · rintro ⟨ev, hev, rfl⟩
      obtain ⟨c, hc, rfl⟩ := (hback ev).mp hev
      exact ⟨c, hc, rfl⟩
    · rintro ⟨c, hc, rfl⟩
      exact ⟨c.1.event, (hback _).mpr ⟨c, hc, rfl⟩, rfl⟩
  · intro id id' r r' hr hr' hkey
    exact hrep.inj id id' r.key ⟨r, hr, rfl⟩ ⟨r', hr', hkey.symm⟩
  · intro id r hr
    rw [← nextEventKey_indexAll calls hdet]
    exact hrep.fresh id r.key ⟨r, hr, rfl⟩
  · intro c hc r hr
    exact hrep.filedUnder hdet' ((hback _).mpr ⟨c, hc, rfl⟩) hr
  · intro key hlisted
    obtain ⟨id, r, hr, rfl⟩ := hrep.hasKey_of_listed hlisted
    exact ⟨r, (hrep.byKey r.key r).mpr ⟨rfl, id, hr⟩⟩

def repeatedNote : List (StoredEvent × ℕ) :=
  [(.nostr { id := "note", pubkey := "alice", kind := 1, createdAt := 100,
             tags := [⟨some ["p", "bob"]⟩], content := "hi", sig := "" }, 0),
   (.nostr { id := "byAlice", pubkey := "alice", kind := 5, createdAt := 200,
             tags := [⟨some ["e", "note"]⟩], content := "", sig := "" }, 40),
   (.parsed { id := "note", pubkey := "alice", kind := 1, createdAt := 100,
              tags := [⟨some ["p", "bob"]⟩] }, 90)]

/-- The note keeps its key when it is indexed again. -/
theorem indexAll_indexesOf_repeatedNote : (indexAll repeatedNote).indexes.IndexesOf repeatedNote :=
  indexAll_indexesOf repeatedNote (by decide)

end Nipworker
