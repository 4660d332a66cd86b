/-
The indexed query and the naive filter.

`NostrDB.visibleEvents` is what a query is for, without any index: go through
the events that were stored, keep those that are not deleted, still readable
and match the filter.  The indexed query answers with the newest of these.
-/
import Nipworker.Storage.Query

namespace Nipworker

open List

instance : Fintype TagName :=
  ⟨{.e, .E, .p, .P, .a, .d, .q}, fun n => by cases n <;> decide⟩

/-- The event has one of the values listed for each indexed field. -/
def Event.MatchesIndexed (ev : Event) (filter : QueryFilter) : Prop :=
  (∀ ids ∈ filter.ids, ev.id ∈ ids) ∧
  (∀ kinds ∈ filter.kinds, ev.kind ∈ kinds) ∧
  (∀ authors ∈ filter.authors, ev.pubkey ∈ authors) ∧
  ∀ n, ∀ values ∈ filter.tags n, ∃ value ∈ values, ev.HasTag n.text value

/-- The event satisfies every field of the filter that is present. -/
def Event.Matches (ev : Event) (filter : QueryFilter) : Prop :=
  ev.MatchesIndexed filter ∧
  (∀ since ∈ filter.sinceTime, since ≤ ev.createdAt) ∧
  ∀ upto ∈ filter.untilTime, ev.createdAt ≤ upto

instance (ev : Event) (filter : QueryFilter) : Decidable (ev.MatchesIndexed filter) :=
  inferInstanceAs (Decidable (_ ∧ _ ∧ _ ∧ _))

instance (ev : Event) (filter : QueryFilter) : Decidable (ev.Matches filter) :=
  inferInstanceAs (Decidable (_ ∧ _ ∧ _))

/-- The naive query: of the events `evs`, each once, those that are indexed,
not deleted, still live in their shard, and match. -/
def NostrDB.visibleEvents (db : NostrDB) (evs : List Event) (filter : QueryFilter) : List Event :=
  evs.dedup.filter fun ev =>
    (db.index.indexes.record ev.id).isSome ∧ ¬ db.index.Suppressed ev.id ∧
      db.holdsEvent ev.id = true ∧ ev.Matches filter

theorem matches_normalizeQueryFilter {ev : Event} {filter : QueryFilter} :
    ev.Matches (normalizeQueryFilter filter) ↔ ev.Matches filter := by
  unfold Event.Matches Event.MatchesIndexed normalizeQueryFilter
  simp only [Option.mem_map, forall_exists_index, and_imp, forall_apply_eq_imp_iff₂,
    mem_eraseDups]

/-! ### Keys and events -/

section Keys

variable {ix : DatabaseIndexes} {evs : List Event}

theorem Represents.exists_hasKey_iff (hrep : ix.Represents evs) (hdet : DeterminedIds evs)
    {ev : Event} (hev : ev ∈ evs) {key : EventKey} (hkey : ix.HasKey ev.id key)
    {P : Event → Prop} : (∃ x ∈ evs, P x ∧ ix.HasKey x.id key) ↔ P ev := by
  constructor
  · rintro ⟨x, hx, hP, hk⟩
    rw [hdet ev hev x hx (hrep.inj ev.id x.id key hkey hk)]
    exact hP
  · exact fun hP => ⟨ev, hev, hP, hkey⟩

/-- The candidate sets of a filter hold exactly the keys of the events its indexed fields
match. -/
theorem Represents.admits_iff (hrep : ix.Represents evs) (hdet : DeterminedIds evs)
    {ev : Event} (hev : ev ∈ evs) {key : EventKey} (hkey : ix.HasKey ev.id key)
    (filter : QueryFilter) :
    (∀ g ∈ gatherFilter ix filter, GatheredCandidates.Admits g key) ↔
      ev.MatchesIndexed filter := by
  have hids : ∀ id, ix.HasKey id key ↔ ev.id = id := by
    intro id
    constructor
    · exact fun hk => hrep.inj ev.id id key hkey hk
    · rintro rfl
      exact hkey
  have hkinds : ∀ k, key ∈ ix.eventsByKind.bucket k ↔ ev.kind = k := fun k =>
    (hrep.byKind k key).trans (exists_hasKey_iff hrep hdet hev hkey)
  have hauthors : ∀ pk, key ∈ ix.eventsByPubkey.bucket pk ↔ ev.pubkey = pk := fun pk =>
    (hrep.byPubkey pk key).trans (exists_hasKey_iff hrep hdet hev hkey)
  have htags : ∀ n v, key ∈ (ix.eventsByTag n).bucket v ↔ ev.HasTag n.text v := fun n v =>
    (hrep.byTag n v key).trans (exists_hasKey_iff hrep hdet hev hkey)
  unfold gatherFilter Event.MatchesIndexed
  simp only [forall_mem_append, forall_mem_cons, forall_mem_map,
    not_mem_nil, false_imp_iff, implies_true, and_true, gatherIds_admits,
    gatherCandidates_admits, hids, hkinds, hauthors, htags, exists_eq_right']
  rw [and_assoc, and_assoc]
  refine and_congr_right fun _ => and_congr_right fun _ => and_congr_right fun _ => ?_
  constructor
  · rintro ⟨he, hE, hp, hP, ha, hd, hq⟩ n
    cases n <;> assumption
  · exact fun h => ⟨h .e, h .E, h .p, h .P, h .a, h .d, h .q⟩

end Keys

namespace NostrDB

variable {db : NostrDB} {history : ShardId → List Bytes} {evs : List Event}
  {stored : String → Bytes → Prop}

def recordOf (db : NostrDB) (ev : Event) : EventRecord :=
  (db.index.indexes.record ev.id).getD { key := 0, offset := 0, createdAt := 0 }

theorem recordOf_eq {ev : Event} {record : EventRecord}
    (h : db.index.indexes.record ev.id = some record) : db.recordOf ev = record := by
  rw [recordOf, h, Option.getD_some]

variable {filter : QueryFilter}

theorem exists_record_of_visible {ev : Event} (h : ev ∈ db.visibleEvents evs filter) :
    ev ∈ evs ∧ ∃ record, db.index.indexes.record ev.id = some record := by
  unfold visibleEvents at h
  rw [mem_filter, mem_dedup, decide_eq_true_eq] at h
  exact ⟨h.1, Option.isSome_iff_exists.mp h.2.1⟩

theorem mem_visibleEvents_iff {ev : Event} {record : EventRecord}
    (hrec : db.index.indexes.record ev.id = some record) :
    ev ∈ db.visibleEvents evs filter ↔
      ev ∈ evs ∧ record.key ∉ db.index.tombstones.deletedKeys ∧
        db.storage.containsOffset record.offset = true ∧ ev.Matches filter := by
  unfold visibleEvents
  rw [mem_filter, mem_dedup, decide_eq_true_eq]
  refine and_congr_right fun _ => ?_
  have hsupp : db.index.Suppressed ev.id ↔ record.key ∈ db.index.tombstones.deletedKeys := by
    unfold IndexState.Suppressed
    rw [hrec]
    simp
  rw [hsupp, holdsEvent, hrec]
  simp

/-- **The survivors are the visible events**: the records the indexed query
keeps are those of the events the naive query keeps. -/
theorem Tracks.survivors_perm (h : db.Tracks history evs stored) (hdet : DeterminedIds evs)
    (order : IterOrder EventKey) (filter : QueryFilter) {sets : List (Finset EventKey)}
    (hsets : candidateSets (gatherFilter db.index.indexes filter) = some sets) :
    ((candidateRecords order db.index.indexes sets).filter (consider db filter)).Perm
      ((db.visibleEvents evs filter).map db.recordOf) := by
  have hrep := h.represents
  rw [perm_ext_iff_of_nodup]
  · intro record
    rw [mem_filter, mem_candidateRecords, mem_map]
    constructor
    · rintro ⟨⟨key, hlook, hall⟩, hcons⟩
      obtain ⟨hkey, id, hid⟩ := (hrep.byKey key record).mp hlook
      obtain ⟨ev, hev, rfl⟩ := (hrep.indexed id).mp ⟨record, hid⟩
      refine ⟨ev, ?_, recordOf_eq hid⟩
      rw [mem_visibleEvents_iff hid]
      unfold consider at hcons
      simp only [decide_eq_true_eq] at hcons
      obtain ⟨hdel, hsince, huntil, hlive⟩ := hcons
      rw [hrep.createdAt ev hev record hid] at hsince huntil
      refine ⟨hev, hdel, hlive, ?_, ?_, ?_⟩
      · rw [← Represents.admits_iff hrep hdet hev ⟨record, hid, hkey⟩,
          ← admits_candidateSets key hsets]
        exact hall
      · simpa [Option.all_eq_true] using hsince
      · simpa [Option.all_eq_true] using huntil
    · rintro ⟨ev, hev, hrecord⟩
      obtain ⟨-, record', hid⟩ := exists_record_of_visible hev
      obtain rfl : record' = record := (recordOf_eq hid).symm.trans hrecord
      obtain ⟨hmem, hdel, hlive, hindexed, hsince, huntil⟩ := (mem_visibleEvents_iff hid).mp hev
      refine ⟨⟨record'.key, (hrep.byKey _ _).mpr ⟨rfl, ev.id, hid⟩, ?_⟩, ?_⟩
      · rw [admits_candidateSets _ hsets,
          Represents.admits_iff hrep hdet hmem ⟨record', hid, rfl⟩]
        exact hindexed
      · unfold consider
        rw [decide_eq_true_eq, hrep.createdAt ev hmem record' hid]
        refine ⟨hdel, ?_, ?_, hlive⟩
        · simpa [Option.all_eq_true] using hsince
        · simpa [Option.all_eq_true] using huntil
  · refine (nodup_candidateRecords ?_ sets).filter _
    exact fun key record hlook => ((hrep.byKey key record).mp hlook).1
  · -- two visible events with one record have one id, and are the same
    refine List.Nodup.map_on ?_ ((nodup_dedup evs).filter _)
    intro a ha b hb hab
    obtain ⟨hmema, ra, hra⟩ := exists_record_of_visible ha
    obtain ⟨hmemb, rb, hrb⟩ := exists_record_of_visible hb
    rw [recordOf_eq hra, recordOf_eq hrb] at hab
    subst hab
    exact hdet a hmema b hmemb (hrep.inj a.id b.id ra.key ⟨ra, hra, rfl⟩ ⟨ra, hrb, rfl⟩)

theorem Tracks.visibleEvents_eq_nil (h : db.Tracks history evs stored) (hdet : DeterminedIds evs)
    (hsets : candidateSets (gatherFilter db.index.indexes filter) = none) :
    db.visibleEvents evs filter = [] := by
  rw [eq_nil_iff_forall_not_mem]
  intro ev hev
  obtain ⟨-, record, hrec⟩ := exists_record_of_visible hev
  obtain ⟨hmem, -, -, hindexed, -⟩ := (mem_visibleEvents_iff hrec).mp hev
  exact candidateSets_eq_none hsets record.key
    ((Represents.admits_iff h.represents hdet hmem ⟨record, hrec, rfl⟩ filter).mpr hindexed)

theorem visibleEvents_normalize (db : NostrDB) (evs : List Event) (filter : QueryFilter) :
    db.visibleEvents evs (normalizeQueryFilter filter) = db.visibleEvents evs filter := by
  unfold visibleEvents
  simp only [matches_normalizeQueryFilter]

theorem Tracks.forall₂_read (h : db.Tracks history evs stored)
    (chosen : List Event) (hchosen : ∀ ev ∈ chosen, ev ∈ db.visibleEvents evs filter) :
    List.Forall₂ (fun ev bytes => stored ev.id bytes) chosen
      ((chosen.map fun ev => ((db.recordOf ev).createdAt, (db.recordOf ev).offset)).filterMap
        fun survivor =>
          match db.storage.getEvent survivor.2 with
          | .ok (some bytes) => some bytes
          | _ => none) := by
  induction chosen with
  | nil => exact .nil
  | cons ev rest ih =>
    have hev := hchosen ev mem_cons_self
    obtain ⟨-, record, hrec⟩ := exists_record_of_visible hev
    obtain ⟨-, -, hlive, -⟩ := (mem_visibleEvents_iff hrec).mp hev
    obtain ⟨bytes, hread, hstored⟩ := h.getEvent hrec hlive
    rw [map_cons, filterMap_cons_some (b := bytes) (by rw [recordOf_eq hrec, hread])]
    exact .cons hstored (ih fun x hx => hchosen x (mem_cons_of_mem _ hx))

theorem Tracks.createdAt_recordOf (h : db.Tracks history evs stored)
    {ev : Event} (hev : ev ∈ db.visibleEvents evs filter) :
    (db.recordOf ev).createdAt = ev.createdAt := by
  obtain ⟨hmem, record, hrec⟩ := exists_record_of_visible hev
  rw [recordOf_eq hrec]
  exact h.represents.createdAt ev hmem record hrec

/-- **The indexed query answers as the naive one**, for any database that is
tracked: with the newest `min limit n` of the `n` visible events, read back as
they are stored. -/
theorem Tracks.query (h : db.Tracks history evs stored) (hdet : DeterminedIds evs)
    (order : IterOrder EventKey) (sel : SelectNth (ℕ × ℕ) survivorTime) (filter : QueryFilter)
    (sortResults : Bool) :
    ∃ result chosen,
      db.queryEventsWithFilterInner order sel filter sortResults = .ok result ∧
      TopOf Event.createdAt (filter.limit.getD (db.visibleEvents evs filter).length) chosen
        (db.visibleEvents evs filter) ∧
      (sortResults = true → chosen.Pairwise fun a b => b.createdAt ≤ a.createdAt) ∧
      List.Forall₂ (fun ev bytes => stored ev.id bytes) chosen result.events ∧
      result.totalFound = (db.visibleEvents evs filter).length ∧
      result.hasMore = filter.limit.any fun limit =>
        (db.visibleEvents evs filter).length > limit := by
  unfold queryEventsWithFilterInner
  rw [← visibleEvents_normalize db evs filter]
  have hlimit : filter.limit = (normalizeQueryFilter filter).limit := rfl
  rw [hlimit]
  generalize normalizeQueryFilter filter = filter
  dsimp only
  rcases hsets : candidateSets (gatherFilter db.index.indexes filter) with _ | sets
  · -- one field has no event at all
    rw [h.visibleEvents_eq_nil hdet hsets]
    refine ⟨_, [], rfl, ⟨by simp, [], .nil, fun a ha => absurd ha not_mem_nil⟩,
      fun _ => .nil, .nil, rfl, ?_⟩
    simp [QueryResult.empty]
  · have hperm := (h.survivors_perm hdet order filter hsets).map
      fun record : EventRecord => (record.createdAt, record.offset)
    rw [map_map] at hperm
    dsimp only
    generalize ((candidateRecords order db.index.indexes sets).filter (consider db filter)).map
      (fun record : EventRecord => (record.createdAt, record.offset)) = survivors at hperm
    have hlen : survivors.length = (db.visibleEvents evs filter).length := by
      rw [hperm.length_eq, length_map]
    have htop := topOf_applyLimit sel filter.limit survivors
    rw [hlen] at htop ⊢
    -- the selection, sorted or not, is a selection among the visible events
    have hsorted : (if sortResults then
        sortDesc survivorTime (applyLimit sel filter.limit survivors)
        else applyLimit sel filter.limit survivors).Perm (applyLimit sel filter.limit survivors) := by
      split
      · exact perm_sortDesc _ _
      · exact .refl _
    obtain ⟨chosen, hchosen, htop⟩ := (htop.of_perm hsorted hperm).exists_of_map
    have hvisible := htop.subset
    refine ⟨_, chosen, rfl, htop.congr_key fun ev hev => h.createdAt_recordOf hev, ?_, ?_, rfl, rfl⟩
    · intro hsort
      rw [hsort, if_pos rfl] at hchosen
      have hpw := pairwise_sortDesc survivorTime (applyLimit sel filter.limit survivors)
      rw [hchosen, pairwise_map] at hpw
      refine hpw.imp_of_mem fun {a b} ha hb hab => ?_
      rw [← h.createdAt_recordOf (hvisible a ha), ← h.createdAt_recordOf (hvisible b hb)]
      exact hab
    · dsimp only
      rw [hchosen]
      exact h.forall₂_read chosen hvisible

end NostrDB

/-- **The indexed query refines the naive filter.**  In every database reached
by adding events and replaying deletions, a query returns, newest first, the
bytes last stored for `min limit n` of the `n` events that are indexed, not
deleted, live and matching, with no newer one left out; it reports `n`, and
more exactly when a limit is set and below `n`.  Whatever the iteration order
of the sets and the selection do. -/
theorem query_refines_naive (fb : FlatBuffers) (builder : FlatBufferBuilder)
    (hfb : fb.RejectsEmpty) (hbuilder : ∀ ev, builder.nostrEvent ev ≠ []) (maxBufferSize : ℕ)
    (hcap : maxBufferSize + legacyDedicatedBytes ≤ 2 ^ 32) (calls : List DbCall)
    (hsound : ∀ c ∈ calls, c.Sound fb)
    (hdet : DeterminedIds (calls.filterMap (DbCall.event fb)))
    (order : IterOrder EventKey) (sel : SelectNth (ℕ × ℕ) survivorTime) (filter : QueryFilter) :
    let run := ((NostrDB.new maxBufferSize).initializeDb fb).runCalls fb builder calls
    let visible := run.1.visibleEvents (run.2.map Prod.fst) filter
    ∃ result chosen, run.1.queryEventsWithFilter order sel filter = .ok result ∧
      TopOf Event.createdAt (filter.limit.getD visible.length) chosen visible ∧
      chosen.Pairwise (fun a b => b.createdAt ≤ a.createdAt) ∧
      result.events.map some = chosen.map (fun ev => lastStored run.2 ev.id) ∧
      result.totalFound = visible.length ∧
      (result.hasMore = true ↔ ∃ limit, filter.limit = some limit ∧ visible.length > limit) := by
  intro run visible
  have hlog : ∀ ev ∈ run.2.map Prod.fst, ev ∈ calls.filterMap (DbCall.event fb) :=
    fun ev hev => NostrDB.mem_log hfb hbuilder hsound hev
  obtain ⟨history, htracks⟩ : run.1.TrackedBy run.2 :=
    (NostrDB.trackedBy_new fb hcap).runCalls hfb hbuilder calls hsound
      (by rw [map_nil, append_nil]; exact hdet)
  obtain ⟨result, chosen, hquery, htop, hsorted, hread, htotal, hmore⟩ :=
    htracks.query (hdet.of_subset hlog) order sel filter true
  refine ⟨result, chosen, hquery, htop, hsorted rfl, ?_, htotal, ?_⟩
  · rw [← List.forall₂_eq_eq_eq, List.forall₂_map_left_iff, List.forall₂_map_right_iff]
    exact hread.flip.imp fun _ _ hst => hst.symm
  · rw [hmore, Option.any_eq_true]
    simp only [decide_eq_true_eq]
    rfl

/-- A note and its deletion, added to a database of the usual size. -/
theorem query_refines_naive_noteDeleted :
    let calls := [DbCall.addWorkerMessageBytes noteBytes, .addWorkerMessageBytes noteDeletionBytes]
    let run := ((NostrDB.new 8388608).initializeDb noteReaders).runCalls noteReaders
      ⟨fun _ => noteBytes⟩ calls
    ∃ (result : QueryResult) (chosen : List Event),
      run.1.queryEventsWithFilter (.entries _) (.sort _) QueryFilter.new = .ok result ∧
      result.events.map some = chosen.map (fun ev => lastStored run.2 ev.id) := by
  intro calls run
  obtain ⟨result, chosen, hquery, -, -, hread, -⟩ :=
    query_refines_naive noteReaders ⟨fun _ => noteBytes⟩ ⟨rfl, rfl, rfl⟩
      (fun _ h => by cases h) 8388608 (by decide) calls (by simp [calls, DbCall.Sound])
      (by decide) (.entries _) (.sort _) QueryFilter.new
  exact ⟨result, chosen, hquery, hread⟩

end Nipworker
