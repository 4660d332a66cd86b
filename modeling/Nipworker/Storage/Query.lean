/-
Queries over the index (`query_events_with_filter` in `storage/db/index.rs`).

A filter is answered from the indexes: each field that is present gives a set
of candidate keys, the smallest set is walked and the others are probed, and
the records that are left are checked for deletion, time and liveness.  Only
then are the largest ones by creation time selected and their bytes read.

The walk over a hash set or map has no specified order, and neither have the
two parts of the selection: `IterOrder` and `SelectNth` stand for whatever the
tables do.
-/
import Nipworker.Lib.TopK
import Nipworker.Storage.NostrDb

namespace Nipworker

open List

/-- `QueryFilter`.  The seven tag lists are one function of the tag name. -/
structure QueryFilter where
  ids : Option (List String)
  authors : Option (List String)
  kinds : Option (List UInt16)
  tags : TagName → Option (List String)
  sinceTime : Option ℕ
  untilTime : Option ℕ
  limit : Option ℕ
  search : Option String

def QueryFilter.new : QueryFilter :=
  { ids := none, authors := none, kinds := none, tags := fun _ => none, sinceTime := none,
    untilTime := none, limit := none, search := none }

/-- `QueryResult`, without the time it took. -/
structure QueryResult where
  events : List Bytes
  totalFound : ℕ
  hasMore : Bool
  deriving DecidableEq

/-- `empty_query_result`. -/
def QueryResult.empty : QueryResult := { events := [], totalFound := 0, hasMore := false }

/-- What a field of a filter lets through. -/
inductive GatheredCandidates
  | absent
  | empty
  | set (keys : Finset EventKey)

def normalizeQueryFilter (filter : QueryFilter) : QueryFilter :=
  { filter with
    ids := filter.ids.map List.eraseDups
    authors := filter.authors.map List.eraseDups
    kinds := filter.kinds.map List.eraseDups
    tags := fun n => (filter.tags n).map List.eraseDups }

def gatherCandidates {K : Type} [DecidableEq K] (values : Option (List K))
    (index : Multimap K EventKey) : GatheredCandidates :=
  match values with
  | none => .absent
  | some [value] =>
    match index.lookup value with
    | some keys => if keys = ∅ then .empty else .set keys
    | none => .empty
  | some values =>
    let union := values.foldl
      (fun union value =>
        match index.lookup value with
        | some keys => union ∪ keys
        | none => union) ∅
    if union = ∅ then .empty else .set union

/-- The candidates of the `ids` field, looked up one by one. -/
def gatherIds (values : Option (List String)) (ix : DatabaseIndexes) : GatheredCandidates :=
  match values with
  | none => .absent
  | some ids =>
    let keys := ids.foldl
      (fun keys id =>
        match ix.eventsById.lookup id with
        | some record => insert record.key keys
        | none => keys) ∅
    if keys = ∅ then .empty else .set keys

/-- All indexed fields of a filter, in the order they are looked at. -/
def gatherFilter (ix : DatabaseIndexes) (filter : QueryFilter) : List GatheredCandidates :=
  [gatherIds filter.ids ix, gatherCandidates filter.kinds ix.eventsByKind,
    gatherCandidates filter.authors ix.eventsByPubkey]
  ++ [TagName.e, .E, .p, .P, .a, .d, .q].map fun n =>
    gatherCandidates (filter.tags n) (ix.eventsByTag n)

/-- The candidate sets of the fields that are present; `none` when one of them
has no event at all. -/
def candidateSets : List GatheredCandidates → Option (List (Finset EventKey))
  | [] => some []
  | .absent :: rest => candidateSets rest
  | .empty :: _ => none
  | .set keys :: rest => (candidateSets rest).map (keys :: ·)

/-- The records that are walked: all of them when no field is indexed, else
those of the smallest set that are in the others. -/
def candidateRecords (order : IterOrder EventKey) (ix : DatabaseIndexes)
    (sets : List (Finset EventKey)) : List EventRecord :=
  match List.insertionSort (fun s t : Finset EventKey => s.card ≤ t.card) sets with
  | [] => (order.order ix.eventsByKey.keys).filterMap ix.eventsByKey.lookup
  | driver :: others =>
    ((order.order driver.sort).filter fun key => ∀ s ∈ others, key ∈ s).filterMap
      ix.eventsByKey.lookup

/-- The checks on a record that no index answers: not deleted, in the time
range, and still readable. -/
def consider (db : NostrDB) (filter : QueryFilter) (record : EventRecord) : Bool :=
  record.key ∉ db.index.tombstones.deletedKeys ∧
    (filter.sinceTime.all fun since => since ≤ record.createdAt) = true ∧
    (filter.untilTime.all fun upto => record.createdAt ≤ upto) = true ∧
    db.storage.containsOffset record.offset = true

abbrev survivorTime (survivor : ℕ × ℕ) : ℕ := survivor.1

def NostrDB.queryEventsWithFilterInner (order : IterOrder EventKey)
    (sel : SelectNth (ℕ × ℕ) survivorTime) (db : NostrDB) (filter : QueryFilter)
    (sortResults : Bool) : Except DatabaseError QueryResult :=
  let filter := normalizeQueryFilter filter
  match candidateSets (gatherFilter db.index.indexes filter) with
  | none => .ok QueryResult.empty
  | some sets =>
    let survivors := ((candidateRecords order db.index.indexes sets).filter
      (consider db filter)).map fun record => (record.createdAt, record.offset)
    let chosen := applyLimit sel filter.limit survivors
    let chosen := if sortResults then sortDesc survivorTime chosen else chosen
    .ok
      { events := chosen.filterMap fun survivor =>
          match db.storage.getEvent survivor.2 with
          | .ok (some bytes) => some bytes
          | _ => none
        totalFound := survivors.length
        hasMore := filter.limit.any fun limit => survivors.length > limit }

def NostrDB.queryEventsWithFilter (order : IterOrder EventKey)
    (sel : SelectNth (ℕ × ℕ) survivorTime) (db : NostrDB) (filter : QueryFilter) :
    Except DatabaseError QueryResult :=
  db.queryEventsWithFilterInner order sel filter true

/-! ### Candidate sets -/

def GatheredCandidates.Admits : GatheredCandidates → EventKey → Prop
  | .absent, _ => True
  | .empty, _ => False
  | .set keys, key => key ∈ keys

theorem admits_ite {keys : Finset EventKey} {key : EventKey} :
    (if keys = ∅ then GatheredCandidates.empty else .set keys).Admits key ↔ key ∈ keys := by
  by_cases h : keys = ∅
  · rw [if_pos h, h]
    exact ⟨False.elim, fun hk => absurd hk (Finset.notMem_empty key)⟩
  · rw [if_neg h]
    rfl

theorem mem_foldl_union {K : Type} [DecidableEq K] {index : Multimap K EventKey} {key : EventKey}
    (values : List K) : ∀ union : Finset EventKey,
    key ∈ values.foldl
        (fun union value =>
          match index.lookup value with
          | some keys => union ∪ keys
          | none => union) union ↔
      key ∈ union ∨ ∃ value ∈ values, key ∈ index.bucket value := by
  induction values with
  | nil => simp
  | cons value rest ih =>
    intro union
    rw [foldl_cons, ih, exists_mem_cons_iff, ← or_assoc]
    refine or_congr_left ?_
    rw [Multimap.bucket]
    rcases index.lookup value with _ | keys <;> simp

/-- The keys a field lets through. -/
theorem gatherCandidates_admits {K : Type} [DecidableEq K] (values : Option (List K))
    (index : Multimap K EventKey) (key : EventKey) :
    (gatherCandidates values index).Admits key ↔
      ∀ vs ∈ values, ∃ value ∈ vs, key ∈ index.bucket value := by
  unfold gatherCandidates
  split
  · exact ⟨fun _ vs hvs => (Option.not_mem_none vs hvs).elim, fun _ => trivial⟩
  · next value =>
    simp only [Option.mem_some_iff, forall_eq', mem_singleton, exists_eq_left,
      Multimap.bucket]
    rcases index.lookup value with _ | keys
    · exact ⟨False.elim, fun h => absurd h (Finset.notMem_empty key)⟩
    · exact admits_ite
  · next values _ =>
    simp only [Option.mem_some_iff, forall_eq']
    rw [admits_ite, mem_foldl_union]
    simp

variable {ix : DatabaseIndexes}

theorem mem_foldl_insert {key : EventKey} (ids : List String) :
    ∀ keys : Finset EventKey,
    key ∈ ids.foldl
        (fun keys id =>
          match ix.eventsById.lookup id with
          | some record => insert record.key keys
          | none => keys) keys ↔
      key ∈ keys ∨ ∃ id ∈ ids, ix.HasKey id key := by
  induction ids with
  | nil => simp
  | cons id rest ih =>
    intro keys
    rw [foldl_cons, ih, exists_mem_cons_iff, ← or_assoc]
    refine or_congr_left ?_
    unfold DatabaseIndexes.HasKey DatabaseIndexes.record
    rcases ix.eventsById.lookup id with _ | record
    · simp
    · simp only [Finset.mem_insert, Option.some.injEq, exists_eq_left']
      rw [or_comm, eq_comm]

theorem gatherIds_admits (values : Option (List String)) (ix : DatabaseIndexes) (key : EventKey) :
    (gatherIds values ix).Admits key ↔ ∀ ids ∈ values, ∃ id ∈ ids, ix.HasKey id key := by
  unfold gatherIds
  rcases values with _ | ids
  · exact ⟨fun _ vs hvs => (Option.not_mem_none vs hvs).elim, fun _ => trivial⟩
  · simp only [Option.mem_some_iff, forall_eq']
    rw [admits_ite, mem_foldl_insert]
    simp

theorem candidateSets_eq_none {gathered : List GatheredCandidates}
    (h : candidateSets gathered = none) (key : EventKey) :
    ¬ ∀ g ∈ gathered, GatheredCandidates.Admits g key := by
  induction gathered with
  | nil => cases h
  | cons g rest ih =>
    rw [forall_mem_cons]
    rintro ⟨hg, hrest⟩
    cases g with
    | absent => exact ih h hrest
    | empty => exact hg
    | set keys =>
      rw [candidateSets, Option.map_eq_none_iff] at h
      exact ih h hrest

/-- The sets of a filter let through what its fields do. -/
theorem admits_candidateSets {gathered : List GatheredCandidates} (key : EventKey) :
    ∀ {sets : List (Finset EventKey)}, candidateSets gathered = some sets →
    ((∀ s ∈ sets, key ∈ s) ↔ ∀ g ∈ gathered, GatheredCandidates.Admits g key) := by
  induction gathered with
  | nil =>
    intro sets h
    cases h
    simp
  | cons g rest ih =>
    intro sets h
    rw [forall_mem_cons]
    cases g with
    | absent => exact (ih h).trans ⟨fun hrest => ⟨trivial, hrest⟩, And.right⟩
    | empty => cases h
    | set keys =>
      rw [candidateSets, Option.map_eq_some_iff] at h
      obtain ⟨sets', hsets', rfl⟩ := h
      rw [forall_mem_cons, ih hsets']
      rfl

/-- The records that are walked, whichever set drives. -/
theorem mem_candidateRecords {order : IterOrder EventKey}
    {sets : List (Finset EventKey)} {record : EventRecord} :
    record ∈ candidateRecords order ix sets ↔
      ∃ key, ix.eventsByKey.lookup key = some record ∧ ∀ s ∈ sets, key ∈ s := by
  unfold candidateRecords
  have hperm := perm_insertionSort (fun s t : Finset EventKey => s.card ≤ t.card) sets
  rcases hsort : List.insertionSort (fun s t : Finset EventKey => s.card ≤ t.card) sets
    with _ | ⟨driver, others⟩
  · rw [hsort] at hperm
    obtain rfl : sets = [] := hperm.nil_eq.symm
    dsimp only
    rw [mem_filterMap]
    refine exists_congr fun key => ?_
    rw [(order.perm _).mem_iff, ← AList.mem_keys, ← AList.lookup_isSome]
    constructor
    · rintro ⟨-, hlook⟩
      exact ⟨hlook, fun s hs => absurd hs not_mem_nil⟩
    · rintro ⟨hlook, -⟩
      exact ⟨by rw [hlook]; rfl, hlook⟩
  · rw [hsort] at hperm
    dsimp only
    rw [mem_filterMap]
    refine exists_congr fun key => ?_
    rw [mem_filter, (order.perm _).mem_iff, Finset.mem_sort, decide_eq_true_eq,
      mem_driver_and_others hperm, and_comm]

theorem nodup_candidateRecords {order : IterOrder EventKey}
    (hkey : ∀ key record, ix.eventsByKey.lookup key = some record → record.key = key)
    (sets : List (Finset EventKey)) : (candidateRecords order ix sets).Nodup := by
  have hinj : ∀ a b, ∀ r ∈ ix.eventsByKey.lookup a, r ∈ ix.eventsByKey.lookup b → a = b := by
    intro a b r ha hb
    rw [← hkey a r ha, ← hkey b r hb]
  unfold candidateRecords
  split
  · refine List.Nodup.filterMap hinj ?_
    exact (order.perm _).nodup_iff.mpr (AList.keys_nodup _)
  · refine List.Nodup.filterMap hinj (List.Nodup.filter _ ?_)
    exact (order.perm _).nodup_iff.mpr (Finset.sort_nodup _ _)

end Nipworker
