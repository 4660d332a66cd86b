/-
What a restored cache answers.

A snapshot holds the bytes of the persistent shards and nothing of the index.
Restoring it gives every event a new offset, and the index is built anew from
the bytes, shard by shard; the answers stay the same, except for the events of
the ephemeral shard.  The argument is about the last copy of each event: the
record of an id points to the last place of its shard that holds it, before
the snapshot as well as after it, and an event is visible exactly when its last
copy is in the window.
-/
import Nipworker.Storage.Hydration
import Nipworker.Storage.QueryRefinement

namespace Nipworker

open List

/-! ### The last copy of an event -/

/-- The `i`-th payload of a log is the last one that holds the event `id`. -/
structure LastCopy (fb : FlatBuffers) (payloads : List Bytes) (id : String) (i : ℕ)
    (bytes : Bytes) : Prop where
  get : payloads[i]? = some bytes
  reads : ∃ ev, fb.storedEvent bytes = some ev ∧ ev.id = id
  last : ∀ j later ev, i < j → payloads[j]? = some later → fb.storedEvent later = some ev →
    ev.id ≠ id

namespace LastCopy

variable {fb : FlatBuffers} {payloads : List Bytes} {id : String} {i : ℕ} {bytes : Bytes}

theorem le (h : LastCopy fb payloads id i bytes) {j : ℕ} {payload : Bytes} {ev : Event}
    (hget : payloads[j]? = some payload) (hread : fb.storedEvent payload = some ev)
    (hid : ev.id = id) : j ≤ i := by
  by_contra hlt
  exact h.last j payload ev (by omega) hget hread hid

theorem bytes_eq (h : LastCopy fb payloads id i bytes) {j : ℕ} {bytes' : Bytes}
    (h' : LastCopy fb payloads id j bytes') : bytes = bytes' := by
  obtain ⟨ev, hread, hid⟩ := h.reads
  obtain ⟨ev', hread', hid'⟩ := h'.reads
  have hij : i = j := le_antisymm (h'.le h.get hread hid) (h.le h'.get hread' hid')
  exact Option.some.inj (h.get.symm.trans (hij ▸ h'.get))

theorem concat (hread : ∃ ev, fb.storedEvent bytes = some ev ∧ ev.id = id) :
    LastCopy fb (payloads ++ [bytes]) id payloads.length bytes := by
  refine ⟨List.getElem?_concat_length, hread, ?_⟩
  intro j later ev hj hget
  rw [List.getElem?_eq_none (by rw [length_append, length_singleton]; omega)] at hget
  cases hget

theorem append_other (h : LastCopy fb payloads id i bytes) {payload : Bytes}
    (hother : ∀ ev, fb.storedEvent payload = some ev → ev.id ≠ id) :
    LastCopy fb (payloads ++ [payload]) id i bytes := by
  have hlt := (List.getElem?_eq_some_iff.mp h.get).1
  refine ⟨by rw [List.getElem?_append_left hlt]; exact h.get, h.reads, ?_⟩
  intro j later ev hj hget hread
  by_cases hjlt : j < payloads.length
  · rw [List.getElem?_append_left hjlt] at hget
    exact h.last j later ev hj hget hread
  · have hlater : later ∈ [payload] := by
      rw [List.getElem?_append_right (by omega)] at hget
      exact mem_of_getElem? hget
    rw [List.mem_singleton.mp hlater] at hread
    exact hother ev hread

theorem of_drop {k : ℕ} (h : LastCopy fb (payloads.drop k) id i bytes) :
    LastCopy fb payloads id (k + i) bytes := by
  refine ⟨by rw [← List.getElem?_drop]; exact h.get, h.reads, ?_⟩
  intro j later ev hj hget hread
  refine h.last (j - k) later ev (by omega) ?_ hread
  rw [List.getElem?_drop, Nat.add_sub_cancel' (by omega)]
  exact hget

end LastCopy

/-! ### Indexing without deletions -/

theorem Tombstones.isEmpty_default : Tombstones.default.isEmpty = true := rfl

theorem indexEvent_tombstones {st : IndexState} (hnone : st.tombstones = Tombstones.default)
    {ev : Event} (hkind : ev.kind ≠ eventDeletion) (offset : ℕ) :
    (indexEvent st ev offset).tombstones = Tombstones.default := by
  unfold indexEvent
  dsimp only
  rw [if_neg hkind]
  dsimp only
  rw [hnone, applyTombstonesToEvent, if_pos Tombstones.isEmpty_default]

/-- **A run of index calls without deletions**: each record is that of the last
call for its id. -/
theorem IndexState.run_last (ops : List IndexOp)
    (hops : ∀ op ∈ ops, ∃ ev offset, op = .index ev offset ∧ ev.kind ≠ eventDeletion) :
    ∀ {st : IndexState} {evs : List Event}, st.indexes.Represents evs →
    st.tombstones = Tombstones.default → DeterminedIds (ops.map IndexOp.event ++ evs) →
    ∃ evs', (st.run ops).indexes.Represents evs' ∧
      (∀ ev, ev ∈ evs' ↔ ev ∈ ops.map IndexOp.event ∨ ev ∈ evs) ∧
      (st.run ops).tombstones = Tombstones.default ∧
      ∀ id r, (st.run ops).indexes.record id = some r →
        (∃ before ev after, ops = before ++ .index ev r.offset :: after ∧ ev.id = id ∧
          ∀ op ∈ after, op.event.id ≠ id) ∨
        (st.indexes.record id = some r ∧ ∀ op ∈ ops, op.event.id ≠ id) := by
  induction ops with
  | nil =>
    exact fun {_ evs} hrep hnone _ => ⟨evs, hrep, by simp, hnone, fun _ _ hr => .inr ⟨hr, nofun⟩⟩
  | cons op rest ih =>
    intro st evs hrep hnone hdet
    obtain ⟨ev, offset, rfl, hkind⟩ := hops op mem_cons_self
    have hstep : st.step (.index ev offset) = indexEvent st ev offset := rfl
    have hindexes := NostrDB.indexEvent_indexes st ev offset
    have hrep' : (indexEvent st ev offset).indexes.Represents (ev :: evs) := by
      rw [hindexes]
      refine hrep.indexFields (hdet.of_subset fun x hx => ?_) offset
      rcases List.mem_cons.mp hx with rfl | hx
      · exact mem_cons_self
      · exact mem_append_right _ hx
    obtain ⟨evs', hrun, hmem, htomb, hlast⟩ :=
      ih (fun op hop => hops op (mem_cons_of_mem _ hop)) hrep'
        (indexEvent_tombstones hnone hkind offset)
        (hdet.of_subset fun x hx => by
          simp only [map_cons, cons_append, mem_cons, mem_append] at hx ⊢
          tauto)
    refine ⟨evs', hrun, fun x => ?_, htomb, fun id r hr => ?_⟩
    · rw [hmem, map_cons, mem_cons, mem_cons]
      show _ ↔ (x = ev ∨ _) ∨ _
      tauto
    · rcases hlast id r hr with ⟨before, x, after, hsplit, hid, hafter⟩ | ⟨hrec, hafter⟩
      · exact .inl ⟨.index ev offset :: before, x, after, by rw [hsplit]; rfl, hid, hafter⟩
      · -- the rest does not index the id: it is this call, or an earlier one
        rw [hindexes, DatabaseIndexes.indexFields_record] at hrec
        by_cases hid : id = ev.id
        · rw [if_pos hid] at hrec
          cases hrec
          exact .inl ⟨[], ev, rest, rfl, hid.symm, hafter⟩
        · rw [if_neg hid] at hrec
          exact .inr ⟨hrec, List.forall_mem_cons.mpr ⟨Ne.symm hid, hafter⟩⟩

/-! ### The order of the rings -/

variable {history : ShardId → List Bytes} {k : ShardId → ℕ} {fb : FlatBuffers}

theorem ShardedStorage.pairwise_contents
    (hsmall : ∀ g i, k g ≤ i → i < (history g).length → framePos (history g) i < 2 ^ 56) :
    (contents history k).Pairwise fun a b => a.1 < b.1 := by
  have hall : ShardId.all.Pairwise fun g g' => g.asU8 < g'.asU8 := by decide
  have hlt : ∀ g, ∀ j < (history g).length - k g, framePos (history g) (k g + j) < 2 ^ 56 :=
    fun g j hj => hsmall g (k g + j) (by omega) (by omega)
  rw [contents, pairwise_flatMap]
  constructor
  · -- within a shard: further along the log
    intro g _
    rw [pairwise_map]
    refine (pairwise_lt_range).imp_of_mem ?_
    intro i j hi hj hij
    rw [mem_range] at hi hj
    have hpos := framePos_lt (show k g + i < k g + j by omega)
      (show k g + j ≤ (history g).length by omega)
    have hi' := hlt g i hi
    have hj' := hlt g j hj
    show packOffset g _ < packOffset g _
    rw [packOffset, packOffset, Nat.mod_eq_of_lt hi', Nat.mod_eq_of_lt hj']
    omega
  · -- between shards: by the upper byte
    refine hall.imp ?_
    intro g g' hg a ha b hb
    obtain ⟨i, hi, rfl⟩ := List.mem_map.mp ha
    obtain ⟨j, hj, rfl⟩ := List.mem_map.mp hb
    show packOffset g _ < packOffset g' _
    have := Nat.mod_lt (framePos (history g) (k g + i)) (show 0 < 2 ^ 56 by decide)
    have := Nat.mod_lt (framePos (history g') (k g' + j)) (show 0 < 2 ^ 56 by decide)
    unfold packOffset
    omega

theorem ShardedStorage.containsOffset_packOffset {s : ShardedStorage} {g : ShardId}
    {payloads : List Bytes} {k i : ℕ} (hwin : (s.shards g).Window payloads k)
    (hopened : (s.shards g).initialized = true) {bytes : Bytes} (hget : payloads[i]? = some bytes)
    (hsmall : k ≤ i → framePos payloads i < 2 ^ 56) :
    s.containsOffset (packOffset g (framePos payloads i)) = true ↔ k ≤ i := by
  unfold ShardedStorage.containsOffset
  rw [unpackOffset_packOffset]
  dsimp only
  constructor
  · intro hlive
    by_contra hlt
    -- evicted: truncating an offset does not bring it above the head
    have hhead := RingBuffer.containsOffset_head hlive
    have hpos := framePos_lt (Nat.lt_of_not_le hlt) hwin.le
    have hmod := Nat.mod_le (framePos payloads i) (2 ^ 56)
    rw [hwin.head] at hhead
    omega
  · intro hk
    rw [Nat.mod_eq_of_lt (hsmall hk), RingBuffer.containsOffset_iff]
    refine ⟨bytes, ?_⟩
    rw [hwin.getEventAtOffset hopened hget, if_neg (by omega)]

/-! ### The index and the logs -/

/-- The event was written to a shard. -/
def Logged (fb : FlatBuffers) (history : ShardId → List Bytes) (ev : Event) : Prop :=
  ∃ g, ∃ payload ∈ history g, fb.storedEvent payload = some ev

/-- The index of a database that has seen no deletion, over the logs of its
shards: it represents the events in them, and the record of an id points to the
last copy of its event. -/
structure NostrDB.Mirrors (fb : FlatBuffers) (db : NostrDB) (history : ShardId → List Bytes)
    (evs : List Event) : Prop where
  holds : db.storage.Holds history
  opened : ∀ g, (db.storage.shards g).initialized = true
  represents : db.index.indexes.Represents evs
  undeleted : db.index.tombstones = Tombstones.default
  logged : ∀ ev, ev ∈ evs ↔ Logged fb history ev
  sharded : ∀ g, ∀ payload ∈ history g, ∀ ev, fb.storedEvent payload = some ev →
    ShardId.fromKind ev.kind.toNat = g
  placed : ∀ id record, db.index.indexes.record id = some record →
    ∃ g i bytes, LastCopy fb (history g) id i bytes ∧
      record.offset = packOffset g (framePos (history g) i)

namespace NostrDB.Mirrors

variable {fb : FlatBuffers} {db : NostrDB} {history : ShardId → List Bytes} {evs : List Event}

section Mirrored

variable (h : db.Mirrors fb history evs)

include h

theorem tracks :
    db.Tracks history evs fun id bytes => ∃ g i, LastCopy fb (history g) id i bytes := by
  refine ⟨h.holds, h.represents, fun id record hrec => ?_⟩
  obtain ⟨g, i, bytes, hcopy, hoff⟩ := h.placed id record hrec
  exact ⟨g, i, bytes, hcopy.get, hoff, g, i, hcopy⟩

variable {bytes : Bytes}

theorem mem_of_get {g : ShardId} {i : ℕ}
    (hget : (history g)[i]? = some bytes) {ev : Event} (hread : fb.storedEvent bytes = some ev) :
    ev ∈ evs :=
  (h.logged ev).mpr ⟨g, bytes, mem_of_getElem? hget, hread⟩

theorem shard_eq (hdet : DeterminedIds evs) {g g' : ShardId}
    {i i' : ℕ} {id : String} {bytes' : Bytes} (hcopy : LastCopy fb (history g) id i bytes)
    (hcopy' : LastCopy fb (history g') id i' bytes') : g = g' := by
  obtain ⟨ev, hread, hid⟩ := hcopy.reads
  obtain ⟨ev', hread', hid'⟩ := hcopy'.reads
  have heq : ev = ev' := hdet ev (h.mem_of_get hcopy.get hread) ev'
    (h.mem_of_get hcopy'.get hread') (hid.trans hid'.symm)
  rw [← h.sharded g bytes (mem_of_getElem? hcopy.get) ev hread, heq]
  exact h.sharded g' bytes' (mem_of_getElem? hcopy'.get) ev' hread'

theorem bytes_unique (hdet : DeterminedIds evs) {id : String}
    {bytes' : Bytes} (hcopy : ∃ g i, LastCopy fb (history g) id i bytes)
    (hcopy' : ∃ g i, LastCopy fb (history g) id i bytes') : bytes = bytes' := by
  obtain ⟨g, i, hcopy⟩ := hcopy
  obtain ⟨g', i', hcopy'⟩ := hcopy'
  obtain rfl := h.shard_eq hdet hcopy hcopy'
  exact hcopy.bytes_eq hcopy'

theorem framePos_lt (hwin : ∀ g, (db.storage.shards g).Window (history g) 0) (g : ShardId) (i : ℕ)
    (hi : i < (history g).length) : framePos (history g) i < 2 ^ 56 := by
  have hlen := h.holds.length_le g
  rw [(hwin g).buffer, drop_zero, ← framePos_length] at hlen
  have hle : framePos (history g) i ≤ framePos (history g) (history g).length :=
    framePos_le hi.le (le_refl _)
  omega

/-- **The visible events are those in the windows** that match the filter. -/
theorem mem_visibleEvents (hdet : DeterminedIds evs)
    {k : ShardId → ℕ} (hwin : ∀ g, (db.storage.shards g).Window (history g) (k g))
    (hsmall : ∀ g i, k g ≤ i → i < (history g).length → framePos (history g) i < 2 ^ 56)
    {ev : Event} {filter : QueryFilter} :
    ev ∈ db.visibleEvents evs filter ↔
      Logged fb (fun g => (history g).drop (k g)) ev ∧ ev.Matches filter := by
  have hlive : ∀ {g : ShardId} {i : ℕ} {bytes : Bytes}, LastCopy fb (history g) ev.id i bytes →
      (db.storage.containsOffset (packOffset g (framePos (history g) i)) = true ↔ k g ≤ i) :=
    fun {g i _} hcopy => ShardedStorage.containsOffset_packOffset (hwin g) (h.opened g) hcopy.get
      fun hk => hsmall g i hk (List.getElem?_eq_some_iff.mp hcopy.get).1
  constructor
  · intro hev
    obtain ⟨hmem, record, hrec⟩ := exists_record_of_visible hev
    obtain ⟨-, -, hcontains, hmatches⟩ := (mem_visibleEvents_iff hrec).mp hev
    obtain ⟨g, i, bytes, hcopy, hoff⟩ := h.placed ev.id record hrec
    rw [hoff, hlive hcopy] at hcontains
    obtain ⟨ev', hread, hid⟩ := hcopy.reads
    obtain rfl : ev' = ev := hdet ev' (h.mem_of_get hcopy.get hread) ev hmem hid
    refine ⟨⟨g, bytes, mem_iff_getElem?.mpr ⟨i - k g, ?_⟩, hread⟩, hmatches⟩
    rw [List.getElem?_drop, Nat.add_sub_cancel' hcontains]
    exact hcopy.get
  · rintro ⟨⟨g, payload, hpayload, hread⟩, hmatches⟩
    obtain ⟨j, hj⟩ := mem_iff_getElem?.mp hpayload
    rw [List.getElem?_drop] at hj
    have hmem : ev ∈ evs := h.mem_of_get hj hread
    obtain ⟨record, hrec⟩ := (h.represents.indexed ev.id).mpr ⟨ev, hmem, rfl⟩
    obtain ⟨g', i, bytes, hcopy, hoff⟩ := h.placed ev.id record hrec
    -- the last copy is in the same shard, and not before this one
    obtain ⟨ev', hread', hid⟩ := hcopy.reads
    obtain rfl : ev' = ev := hdet ev' (h.mem_of_get hcopy.get hread') ev hmem hid
    obtain rfl : g = g' := (h.sharded g payload (mem_of_getElem? hj) ev' hread).symm.trans
      (h.sharded g' bytes (mem_of_getElem? hcopy.get) ev' hread')
    have hle := hcopy.le hj hread rfl
    rw [mem_visibleEvents_iff hrec, hoff, hlive hcopy, h.undeleted]
    exact ⟨hmem, Finset.notMem_empty _, by omega, hmatches⟩

/-- **Adding an event** that is no deletion: its shard has a new last copy. -/
theorem storeAndIndex {ev : StoredEvent}
    (hread : fb.storedEvent bytes = some ev.event) (hne : bytes ≠ [])
    (hkind : ev.event.kind ≠ eventDeletion) (hdet : DeterminedIds (ev.event :: evs)) :
    (∃ e, db.storeAndIndex ev bytes = .error e) ∨
      ∃ db', db.storeAndIndex ev bytes = .ok db' ∧
        db'.Mirrors fb (Function.update history (ShardId.fromKind ev.event.kind.toNat)
          (history (ShardId.fromKind ev.event.kind.toNat) ++ [bytes])) (ev.event :: evs) := by
  unfold NostrDB.storeAndIndex
  rcases h.holds.addEventForKind ev.event.kind.toNat hne with ⟨e, he⟩ | ⟨s', hs', hholds, hinit⟩
  · left
    rw [he]
    exact ⟨e, rfl⟩
  right
  rw [hs']
  obtain ⟨g, hshard⟩ : ∃ g, ShardId.fromKind ev.event.kind.toNat = g := ⟨_, rfl⟩
  rw [hshard] at hs' hholds ⊢
  -- the logs have grown by one payload
  have hmem : ∀ g' payload, payload ∈ Function.update history g (history g ++ [bytes]) g' ↔
      payload ∈ history g' ∨ (g' = g ∧ payload = bytes) := by
    intro g' payload
    by_cases hg : g' = g
    · subst hg
      rw [Function.update_self, mem_append, mem_singleton]
      simp
    · rw [Function.update_of_ne hg]
      simp [hg]
  refine ⟨_, rfl, hholds, fun g' => (hinit g').trans (h.opened g'), ?_, ?_, ?_, ?_, ?_⟩
  · show (indexStoredEvent db.index ev _).indexes.Represents _
    rw [indexStoredEvent_eq, indexEvent_indexes]
    exact h.represents.indexFields hdet _
  · show (indexStoredEvent db.index ev _).tombstones = _
    rw [indexStoredEvent_eq]
    exact indexEvent_tombstones h.undeleted hkind _
  · intro x
    rw [mem_cons, h.logged]
    constructor
    · rintro (rfl | ⟨g', payload, hp, hx⟩)
      · exact ⟨g, bytes, (hmem g bytes).mpr (.inr ⟨rfl, rfl⟩), hread⟩
      · exact ⟨g', payload, (hmem g' payload).mpr (.inl hp), hx⟩
    · rintro ⟨g', payload, hp, hx⟩
      rcases (hmem g' payload).mp hp with hp | ⟨rfl, rfl⟩
      · exact .inr ⟨g', payload, hp, hx⟩
      · exact .inl (Option.some.inj (hx.symm.trans hread))
  · intro g' payload hp x hx
    rcases (hmem g' payload).mp hp with hp | ⟨rfl, rfl⟩
    · exact h.sharded g' payload hp x hx
    · rw [Option.some.inj (hx.symm.trans hread)]
      exact hshard
  · intro id record hrec
    rw [indexStoredEvent_eq, indexEvent_indexes, DatabaseIndexes.indexFields_record] at hrec
    by_cases hid : id = ev.event.id
    · -- the new record: the end of the log of its shard
      rw [if_pos hid] at hrec
      cases hrec
      refine ⟨g, (history g).length, bytes, ?_, ?_⟩
      · rw [Function.update_self]
        exact .concat ⟨ev.event, hread, hid.symm⟩
      · rw [Function.update_self, framePos_append (le_refl _)]
    · -- an old record: its last copy is where it was
      rw [if_neg hid] at hrec
      obtain ⟨g', i, bytes', hcopy, hoff⟩ := h.placed id record hrec
      refine ⟨g', i, bytes', ?_, ?_⟩
      · by_cases hg : g' = g
        · subst hg
          rw [Function.update_self]
          refine hcopy.append_other fun x hx => ?_
          rw [Option.some.inj (hx.symm.trans hread)]
          exact Ne.symm hid
        · rw [Function.update_of_ne hg]
          exact hcopy
      · by_cases hg : g' = g
        · subst hg
          have hlt := (List.getElem?_eq_some_iff.mp hcopy.get).1
          rw [Function.update_self, framePos_append hlt.le, hoff]
        · rw [Function.update_of_ne hg]
          exact hoff

end Mirrored

end NostrDB.Mirrors

/-! ### Rebuilding -/

theorem lastCopy_of_split {payloads : ShardId → List Bytes}
    (hsmall : ∀ g, (frameLog (payloads g)).length < 2 ^ 56)
    {before after : List IndexOp} {ev : Event} {offset : ℕ}
    (hsplit : (ShardedStorage.contents payloads fun _ => 0).filterMap (indexOp fb)
      = before ++ .index ev offset :: after) (hafter : ∀ op ∈ after, op.event.id ≠ ev.id) :
    ∃ g i bytes, LastCopy fb (payloads g) ev.id i bytes ∧
      offset = packOffset g (framePos (payloads g) i) := by
  have hpos : ∀ g i, i < (payloads g).length → framePos (payloads g) i < 2 ^ 56 := by
    intro g i hi
    refine lt_of_le_of_lt ?_ (hsmall g)
    rw [← framePos_length]
    exact framePos_le hi.le (le_refl _)
  have hrising := ShardedStorage.pairwise_contents (k := fun _ => 0)
    fun g i _ hi => hpos g i hi
  obtain ⟨earlier, tail, hcontents, -, htail⟩ := List.filterMap_eq_append_iff.mp hsplit
  obtain ⟨skipped, entry, later, rfl, hskipped, hentry, rfl⟩ := List.filterMap_eq_cons_iff.mp htail
  obtain ⟨x, hx, heq⟩ := Option.map_eq_some_iff.mp hentry
  cases heq
  obtain ⟨g, i, hget, hoff⟩ := ShardedStorage.place_of_mem_contents
    (show entry ∈ ShardedStorage.contents payloads fun _ => 0 by rw [hcontents]; simp)
  refine ⟨g, i, entry.2, ⟨hget, ⟨ev, hx, rfl⟩, ?_⟩, hoff⟩
  intro j payload ev' hij hget' hread' hid
  -- a copy further on in the log would be listed later, and indexed later
  have hj := (List.getElem?_eq_some_iff.mp hget').1
  have hlt : entry.1 < packOffset g (framePos (payloads g) j) := by
    have hlog := framePos_lt hij hj.le
    have hsmall' := hpos g j hj
    rw [hoff, packOffset, packOffset, Nat.mod_eq_of_lt hsmall', Nat.mod_eq_of_lt (by omega)]
    omega
  have hmem : (packOffset g (framePos (payloads g) j), payload) ∈
      earlier ++ (skipped ++ entry :: later) := by
    rw [← hcontents]
    refine List.mem_flatMap.mpr ⟨g, ShardId.mem_all g, List.mem_map.mpr ⟨j, ?_, ?_⟩⟩
    · rw [mem_range]
      omega
    · rw [getD_eq_getElem?_getD, Nat.zero_add, hget', Option.getD_some]
  rw [hcontents, ← append_assoc, pairwise_append, pairwise_cons] at hrising
  rw [← append_assoc, mem_append, mem_cons] at hmem
  rcases hmem with hbefore | hsame | hlater
  · have := hrising.2.2 _ hbefore entry mem_cons_self
    dsimp only at this
    omega
  · rw [← hsame] at hlt
    exact lt_irrefl _ hlt
  · have hop : indexOp fb (packOffset g (framePos (payloads g) j), payload)
        = some (.index ev' (packOffset g (framePos (payloads g) j))) := by
      rw [indexOp, hread']
      rfl
    exact hafter _ (List.mem_filterMap.mpr ⟨_, hlater, hop⟩) hid

/-- **A rebuilt index** mirrors the rings it was built from. -/
theorem NostrDB.mirrors_rebuild (db : NostrDB) {payloads : ShardId → List Bytes}
    {known : List Event} (hdet : DeterminedIds known)
    (hknown : ∀ ev, Logged fb payloads ev → ev ∈ known ∧ ev.kind ≠ eventDeletion)
    (hholds : db.storage.Holds payloads) (hwin : ∀ g, (db.storage.shards g).Window (payloads g) 0)
    (hopened : ∀ g, (db.storage.shards g).initialized = true)
    (hsharded : ∀ g, ∀ payload ∈ payloads g, ∀ ev, fb.storedEvent payload = some ev →
      ShardId.fromKind ev.kind.toNat = g) :
    ∃ evs, (db.rebuildIndexesFromStorage fb).Mirrors fb payloads evs := by
  have hsmall : ∀ g, (frameLog (payloads g)).length < 2 ^ 56 := by
    intro g
    have hlen := hholds.length_le g
    rw [(hwin g).buffer, drop_zero] at hlen
    omega
  obtain ⟨hlist, hget⟩ := ShardedStorage.read_loadEvents hwin hopened hsmall
  have hindex := NostrDB.rebuild_index fb db hlist hget
  have hevents : ∀ ev, ev ∈ ((ShardedStorage.contents payloads fun _ => 0).filterMap
      (indexOp fb)).map IndexOp.event ↔ Logged fb payloads ev := by
    intro ev
    constructor
    · intro hev
      obtain ⟨op, hop, rfl⟩ := List.mem_map.mp hev
      obtain ⟨entry, hentry, hop⟩ := List.mem_filterMap.mp hop
      obtain ⟨ev, hread, rfl⟩ := Option.map_eq_some_iff.mp hop
      obtain ⟨g, hg⟩ := ShardedStorage.mem_contents.mp ⟨entry.1, hentry⟩
      exact ⟨g, entry.2, hg, hread⟩
    · rintro ⟨g, payload, hpayload, hread⟩
      obtain ⟨offset, hoffset⟩ : ∃ offset, (offset, payload) ∈
          ShardedStorage.contents payloads fun _ => 0 :=
        ShardedStorage.mem_contents.mpr ⟨g, hpayload⟩
      refine List.mem_map.mpr ⟨.index ev offset, List.mem_filterMap.mpr ⟨_, hoffset, ?_⟩, rfl⟩
      rw [indexOp, hread]
      rfl
  have hops : ∀ op ∈ (ShardedStorage.contents payloads fun _ => 0).filterMap (indexOp fb),
      ∃ ev offset, op = .index ev offset ∧ ev.kind ≠ eventDeletion := by
    intro op hop
    have hev := (hknown _ ((hevents op.event).mp (mem_map_of_mem hop))).2
    obtain ⟨entry, hentry, hop⟩ := List.mem_filterMap.mp hop
    obtain ⟨ev, -, rfl⟩ := Option.map_eq_some_iff.mp hop
    exact ⟨ev, entry.1, rfl, hev⟩
  obtain ⟨evs, hrep, hmem, htomb, hlast⟩ := IndexState.run_last _ hops
    (represents_preallocated ((ShardedStorage.contents payloads fun _ => 0).map Prod.snd
      |>.filterMap fb.storedEvent)) rfl
    (hdet.of_subset fun ev hev => by
      rw [append_nil] at hev
      exact (hknown ev ((hevents ev).mp hev)).1)
  refine ⟨evs, ?_, ?_, ?_, ?_, fun ev => ?_, hsharded, ?_⟩
  · rw [NostrDB.rebuild_storage]
    exact hholds
  · rw [NostrDB.rebuild_storage]
    exact hopened
  · rw [hindex]
    exact hrep
  · rw [hindex]
    exact htomb
  · rw [hmem, hevents]
    simp
  · rw [hindex]
    intro id record hrec
    rcases hlast id record hrec with ⟨before, ev, after, hsplit, rfl, hafter⟩ | ⟨hold, -⟩
    · exact lastCopy_of_split hsmall hsplit hafter
    · -- nothing was indexed in the sets that were only allocated
      obtain ⟨ev, hev, -⟩ := ((represents_preallocated _).indexed id).mp ⟨record, hold⟩
      cases hev

/-! ### Runs without deletions -/

section Runs

variable (fb : FlatBuffers) (builder : FlatBufferBuilder)

/-- A call that adds an event and no deletion, in bytes that are read back as
the event that is indexed. -/
def DbCall.AddsPlain : DbCall → Prop
  | .addWorkerMessageBytes bytes => ∀ ev, fb.storedEvent bytes = some ev → ev.kind ≠ eventDeletion
  | .addParsedEventWithBytes ev bytes =>
    fb.workerMessage bytes = some (.parsedEvent ev) ∧ ev.kind ≠ eventDeletion
  | .addNostrEventWithBytes ev bytes =>
    fb.workerMessage bytes = some (.nostrEvent ev) ∧ ev.kind ≠ eventDeletion
  | .addEventFromFb ev =>
    fb.storedEvent (builder.nostrEvent
      { ev with tags := ev.tags.filter fun tag => tag.items.isSome }) = some ev.event ∧
      ev.kind ≠ eventDeletion
  | .applyDeletionsFromBytes _ => False

variable {fb builder}

theorem FlatBuffers.RejectsEmpty.ne_nil (h : fb.RejectsEmpty) {bytes : Bytes} {ev : Event}
    (hread : fb.storedEvent bytes = some ev) : bytes ≠ [] := by
  rintro rfl
  rw [FlatBuffers.storedEvent, FlatBuffers.storedMessage, h.workerMessage, h.parsedEvent,
    h.nostrEvent] at hread
  cases hread

theorem DbCall.addsPlain_of_read {bytes : Bytes} {ev : Event}
    (hread : fb.storedEvent bytes = some ev) (hkind : ev.kind ≠ eventDeletion) :
    (DbCall.addWorkerMessageBytes bytes).AddsPlain fb builder := by
  intro ev' hev'
  rw [Option.some.inj (hev'.symm.trans hread)]
  exact hkind

theorem DbCall.AddsPlain.adds {c : DbCall} (h : c.AddsPlain fb builder) {db : NostrDB}
    {ev : StoredEvent} {bytes : Bytes} (hadds : c.adds fb builder db = some (ev, bytes)) :
    c.event fb = some ev.event ∧ fb.storedEvent bytes = some ev.event ∧
      ev.event.kind ≠ eventDeletion := by
  cases c with
  | addWorkerMessageBytes payload =>
    rw [DbCall.adds, Option.map_eq_some_iff] at hadds
    obtain ⟨x, hx, heq⟩ := hadds
    cases heq
    have hread : fb.storedEvent bytes = some ev.event := by
      rw [FlatBuffers.storedEvent]
      rcases hmsg : fb.storedMessage bytes with _ | p | n | _ <;> rw [hmsg] at hx <;> cases hx
        <;> rfl
    exact ⟨hread, hread, h _ hread⟩
  | addParsedEventWithBytes p payload =>
    rw [DbCall.adds] at hadds
    split at hadds
    · cases hadds
    · cases hadds
      refine ⟨rfl, ?_, h.2⟩
      rw [FlatBuffers.storedEvent, FlatBuffers.storedMessage, h.1]
      rfl
  | addNostrEventWithBytes n payload =>
    rw [DbCall.adds] at hadds
    split at hadds
    · cases hadds
    · cases hadds
      refine ⟨rfl, ?_, h.2⟩
      rw [FlatBuffers.storedEvent, FlatBuffers.storedMessage, h.1]
      rfl
  | addEventFromFb n =>
    cases hadds
    exact ⟨rfl, h.1, h.2⟩
  | applyDeletionsFromBytes payload => cases hadds

/-- The database mirrors its logs, and all events in them are known. -/
def NostrDB.MirrorsKnown (fb : FlatBuffers) (known : List Event) (db : NostrDB) : Prop :=
  ∃ history evs, db.Mirrors fb history evs ∧
    ∀ ev ∈ evs, ev ∈ known ∧ ev.kind ≠ eventDeletion

/-- **One call** keeps it. -/
theorem NostrDB.MirrorsKnown.call (hempty : fb.RejectsEmpty) {known : List Event}
    (hdet : DeterminedIds known) {db : NostrDB} (h : db.MirrorsKnown fb known) {c : DbCall}
    (hc : c.AddsPlain fb builder) (hknown : ∀ ev, c.event fb = some ev → ev ∈ known) :
    (db.call fb builder c).MirrorsKnown fb known := by
  obtain ⟨history, evs, hmirrors, hevs⟩ := h
  rw [NostrDB.call_eq]
  rcases hadds : c.adds fb builder db with _ | ⟨ev, bytes⟩
  · cases c
    case applyDeletionsFromBytes => exact hc.elim
    all_goals exact ⟨history, evs, hmirrors, hevs⟩
  · obtain ⟨hev, hread, hkind⟩ := hc.adds hadds
    have hevs' : ∀ x ∈ ev.event :: evs, x ∈ known ∧ x.kind ≠ eventDeletion :=
      List.forall_mem_cons.mpr ⟨⟨hknown _ hev, hkind⟩, hevs⟩
    dsimp only
    rcases hmirrors.storeAndIndex hread (hempty.ne_nil hread) hkind
      (hdet.of_subset fun x hx => (hevs' x hx).1) with ⟨e, he⟩ | ⟨db', hdb', hmirrors'⟩
    · rw [he]
      exact ⟨history, evs, hmirrors, hevs⟩
    · rw [hdb']
      exact ⟨_, _, hmirrors', hevs'⟩

/-- **Every run of calls** keeps it. -/
theorem NostrDB.MirrorsKnown.runCalls (hempty : fb.RejectsEmpty) {known : List Event}
    (hdet : DeterminedIds known) (calls : List DbCall) :
    ∀ {db : NostrDB} {log : List (Event × Bytes)}, db.MirrorsKnown fb known →
    (∀ c ∈ calls, c.AddsPlain fb builder) →
    (∀ ev ∈ calls.filterMap (DbCall.event fb), ev ∈ known) →
    (calls.foldl (NostrDB.logCall fb builder) (db, log)).1.MirrorsKnown fb known := by
  induction calls with
  | nil => exact fun h _ _ => h
  | cons c rest ih =>
    intro db log h hplain hknown
    refine ih (h.call hempty hdet (hplain c mem_cons_self) fun ev hev => ?_)
      (fun c' hc' => hplain c' (mem_cons_of_mem _ hc')) fun ev hev => ?_
    · exact hknown ev (List.mem_filterMap.mpr ⟨c, mem_cons_self, hev⟩)
    · obtain ⟨c', hc', hev'⟩ := List.mem_filterMap.mp hev
      exact hknown ev (List.mem_filterMap.mpr ⟨c', mem_cons_of_mem _ hc', hev'⟩)

theorem NostrDB.mirrorsKnown_new (fb : FlatBuffers) {maxBufferSize : ℕ}
    (hcap : maxBufferSize + legacyDedicatedBytes ≤ 2 ^ 32) (known : List Event) :
    ((NostrDB.new maxBufferSize).initializeDb fb).MirrorsKnown fb known := by
  rw [NostrDB.initializeDb_new]
  refine ⟨fun _ => [], [], ⟨(ShardedStorage.holds_newDefault hcap).initializeStorage,
    fun _ => rfl, DatabaseIndexes.represents_new, rfl, fun ev => ?_, nofun, nofun⟩, nofun⟩
  constructor
  · exact nofun
  · rintro ⟨g, payload, hpayload, -⟩
    cases hpayload

end Runs

/-! ### The restored database -/

/-- Load a snapshot into a database and index it, as `hydrate_from_blob_store`
does with what `save_all_shards` returned. -/
def NostrDB.restore (fb : FlatBuffers) (shards : IterOrder ShardId)
    (snapshot : ShardId → Option Bytes) (db : NostrDB) : Except DatabaseError NostrDB :=
  match ShardedStorage.loadAllShards snapshot db.storage
      (shards.order (ShardId.persistentIds.filter fun g => (snapshot g).isSome)) with
  | (_, .error e) => .error e
  | (storage, .ok ()) => .ok (NostrDB.rebuildIndexesFromStorage fb { db with storage := storage })

def holdsPersistent (fb : FlatBuffers) (bytes : Bytes) : Bool :=
  (fb.storedEvent bytes).any fun ev => (ShardId.fromKind ev.kind.toNat).isPersistent

def restoredLog (history : ShardId → List Bytes) (k : ShardId → ℕ) (g : ShardId) : List Bytes :=
  if g.isPersistent = true then (history g).drop (k g) else []

theorem mem_restoredLog {g : ShardId} {payload : Bytes} :
    payload ∈ restoredLog history k g ↔ g.isPersistent = true ∧ payload ∈ (history g).drop (k g) := by
  unfold restoredLog
  split <;> simp [*]

/-- **Restoring a snapshot** of a database into a fresh one: it mirrors the
windows of the persistent shards. -/
theorem NostrDB.Mirrors.restore {db : NostrDB}
    {evs known : List Event} (h : db.Mirrors fb history evs) (hdet : DeterminedIds known)
    (hknown : ∀ ev ∈ evs, ev ∈ known ∧ ev.kind ≠ eventDeletion)
    (hwin : ∀ g, (db.storage.shards g).Window (history g) (k g)) {maxBufferSize : ℕ}
    (hcap : maxBufferSize + legacyDedicatedBytes ≤ 2 ^ 32) (shards : IterOrder ShardId) :
    ∃ restored evs', ((NostrDB.new maxBufferSize).initializeDb fb).restore fb shards
        db.storage.saveAllShards = .ok restored ∧
      restored.Mirrors fb (restoredLog history k) evs' ∧
      ∀ g, (restored.storage.shards g).Window (restoredLog history k g) 0 := by
  have hsub : ∀ g, ∀ payload ∈ restoredLog history k g, payload ∈ history g :=
    fun g payload hpayload => mem_of_mem_drop (mem_restoredLog.mp hpayload).2
  have hst : ∀ g, ∀ payload ∈ restoredLog history k g, RingBuffer.Storable payload :=
    fun g payload hpayload => (hwin g).storable payload (hsub g payload hpayload)
  -- a shard is in the snapshot exactly when something is left of it
  have hsave : ∀ g, db.storage.saveAllShards g
      = if restoredLog history k g = [] then none else some (frameLog (restoredLog history k g)) := by
    intro g
    unfold ShardedStorage.saveAllShards RingBuffer.saveToBytes restoredLog
    rw [(hwin g).buffer]
    rcases g.isPersistent
    · rfl
    · simp only [Bool.true_eq_false, if_false, if_true, frameLog_eq_nil_iff]
  obtain ⟨s', hload, hspec⟩ := ShardedStorage.loadAllShards_spec db.storage.saveAllShards
    (restoredLog history k) hst
    (shards.order (ShardId.persistentIds.filter fun g => (db.storage.saveAllShards g).isSome))
    (by
      intro g hg
      rw [(shards.perm _).mem_iff, mem_filter, hsave] at hg
      rw [hsave]
      obtain ⟨hpersistent, hsome⟩ := hg
      refine ⟨ShardId.mem_persistentIds.mp hpersistent, ?_⟩
      split at hsome
      · cases hsome
      · next hne => rw [if_neg hne])
    ((NostrDB.new maxBufferSize).initializeDb fb).storage
  rw [NostrDB.initializeDb_new] at hload hspec ⊢
  have hwin' : ∀ g, (s'.shards g).Window (restoredLog history k g) 0 := by
    intro g
    rw [hspec]
    split
    · exact ⟨Nat.zero_le _, rfl, rfl, hst g⟩
    · next hg =>
      have hnil : restoredLog history k g = [] := by
        by_contra hne
        refine hg ((shards.perm _).mem_iff.mpr (List.mem_filter.mpr ⟨?_, ?_⟩))
        · refine ShardId.mem_persistentIds.mpr (by_contra fun hephemeral => hne ?_)
          rw [restoredLog, if_neg hephemeral]
        · rw [hsave, if_neg hne]
          rfl
      rw [hnil]
      exact (RingBuffer.window_new _).initializeStorage
  have hopened : ∀ g, (s'.shards g).initialized = true := by
    intro g
    rw [hspec]
    split <;> rfl
  have hholds : s'.Holds (restoredLog history k) := by
    refine ⟨fun g => ⟨0, hwin' g⟩, fun g => ?_, fun g => ?_⟩
    · -- no more than was in the ring
      have hle := h.holds.length_le g
      rw [(hwin g).buffer] at hle
      rw [(hwin' g).buffer, drop_zero, restoredLog]
      split
      · exact hle
      · exact Nat.zero_le _
    · have hle := (shardCapacity_le maxBufferSize g).trans hcap
      rw [hspec]
      split <;> exact hle
  have hlogged : ∀ ev, Logged fb (restoredLog history k) ev → ev ∈ known ∧ ev.kind ≠ eventDeletion := by
    rintro ev ⟨g, payload, hpayload, hread⟩
    exact hknown ev ((h.logged ev).mpr ⟨g, payload, hsub g payload hpayload, hread⟩)
  obtain ⟨evs', hmirrors⟩ := NostrDB.mirrors_rebuild
    { index := IndexState.empty, isInitialized := true, storage := s' } hdet hlogged hholds hwin'
    hopened fun g payload hpayload => h.sharded g payload (hsub g payload hpayload)
  refine ⟨_, evs', ?_, hmirrors, ?_⟩
  · rw [NostrDB.restore, hload]
  · rw [NostrDB.rebuild_storage]
    exact hwin'

theorem forall₂_eq_map {α β : Type} {R : α → β → Prop} {f : α → β} {xs : List α} {ys : List β}
    (h : List.Forall₂ R xs ys) (hf : ∀ x y, R x y → y = f x) : ys = xs.map f := by
  induction h with
  | nil => rfl
  | cons hxy _ ih => rw [map_cons, ← ih, hf _ _ hxy]

theorem NostrDB.Mirrors.exists_copy {db : NostrDB}
    {evs : List Event} (h : db.Mirrors fb history evs)
    (hdet : DeterminedIds evs) : ∃ copy : Event → Bytes, ∀ ev bytes,
    (∃ g i, LastCopy fb (history g) ev.id i bytes) → bytes = copy ev := by
  have hall : ∀ ev : Event, ∃ copy : Bytes, ∀ bytes,
      (∃ g i, LastCopy fb (history g) ev.id i bytes) → bytes = copy := by
    intro ev
    by_cases hex : ∃ bytes, ∃ g i, LastCopy fb (history g) ev.id i bytes
    · obtain ⟨copy, hcopy⟩ := hex
      exact ⟨copy, fun bytes hbytes => h.bytes_unique hdet hbytes hcopy⟩
    · exact ⟨[], fun bytes hbytes => absurd ⟨bytes, hbytes⟩ hex⟩
  exact Classical.skolem.mp hall

theorem NostrDB.Mirrors.query {db : NostrDB}
    {evs : List Event} (h : db.Mirrors fb history evs) (hdet : DeterminedIds evs)
    (order : IterOrder EventKey) (sel : SelectNth (ℕ × ℕ) survivorTime) {filter : QueryFilter}
    (hlimit : filter.limit = none) {copy : Event → Bytes}
    (hcopy : ∀ ev bytes, (∃ g i, LastCopy fb (history g) ev.id i bytes) → bytes = copy ev) :
    ∃ result, db.queryEventsWithFilter order sel filter = .ok result ∧
      result.events.Perm ((db.visibleEvents evs filter).map copy) ∧
      ∀ ev ∈ db.visibleEvents evs filter, ∃ g i, LastCopy fb (history g) ev.id i (copy ev) := by
  obtain ⟨result, chosen, hquery, htop, -, hread, -⟩ := h.tracks.query hdet order sel filter true
  refine ⟨result, hquery, ?_, fun ev hev => ?_⟩
  · obtain ⟨hlen, rest, hperm, -⟩ := htop
    -- without a limit nothing is left out
    have hrest : rest = [] := by
      have hboth := hperm.length_eq
      rw [length_append, hlen, hlimit, Option.getD_none, Nat.min_self] at hboth
      exact eq_nil_of_length_eq_zero (by omega)
    rw [hrest, append_nil] at hperm
    rw [forall₂_eq_map hread hcopy]
    exact hperm.map copy
  · obtain ⟨-, record, hrec⟩ := exists_record_of_visible hev
    obtain ⟨g, i, bytes, hlast, -⟩ := h.placed ev.id record hrec
    exact ⟨g, i, hcopy ev bytes ⟨g, i, hlast⟩ ▸ hlast⟩

theorem NostrDB.nodup_visibleEvents (db : NostrDB) (evs : List Event) (filter : QueryFilter) :
    (db.visibleEvents evs filter).Nodup := (nodup_dedup evs).filter _

/-- **A snapshot preserves the answers.**  Add any events but deletions to a
fresh database, with any evictions; save its shards, load them into another one
of the same size and rebuild the index.  Every query without a limit returns
the same events from both, except those of the ephemeral shard, whatever the
orders in which the hash tables are walked. -/
theorem snapshot_preserves_answers (fb : FlatBuffers) (builder : FlatBufferBuilder)
    (hempty : fb.RejectsEmpty) (maxBufferSize : ℕ)
    (hcap : maxBufferSize + legacyDedicatedBytes ≤ 2 ^ 32) (calls : List DbCall)
    (hplain : ∀ c ∈ calls, c.AddsPlain fb builder)
    (hdet : DeterminedIds (calls.filterMap (DbCall.event fb))) :
    let fresh := (NostrDB.new maxBufferSize).initializeDb fb
    let db := (fresh.runCalls fb builder calls).1
    (∀ g, ∀ inner ∈ (db.storage.shards g).loadEvents, inner < 2 ^ 56) →
    ∀ shards : IterOrder ShardId, ∃ restored,
      fresh.restore fb shards db.storage.saveAllShards = .ok restored ∧
      ∀ filter : QueryFilter, filter.limit = none →
        ∀ (order order' : IterOrder EventKey) (sel sel' : SelectNth (ℕ × ℕ) survivorTime),
        ∃ before after, db.queryEventsWithFilter order sel filter = .ok before ∧
          restored.queryEventsWithFilter order' sel' filter = .ok after ∧
          after.events.Perm (before.events.filter (holdsPersistent fb)) := by
  intro fresh db hoffsets shards
  obtain ⟨history, evs, hmirrors, hevs⟩ : db.MirrorsKnown fb (calls.filterMap (DbCall.event fb)) :=
    (NostrDB.mirrorsKnown_new fb hcap _).runCalls hempty hdet calls hplain fun _ hev => hev
  obtain ⟨k, hwin⟩ := Classical.skolem.mp hmirrors.holds.window
  have hdet₁ : DeterminedIds evs := hdet.of_subset fun ev hev => (hevs ev hev).1
  have hsmall : ∀ g i, k g ≤ i → i < (history g).length → framePos (history g) i < 2 ^ 56 := by
    intro g i hk hi
    refine hoffsets g _ ?_
    rw [(hwin g).loadEvents]
    refine List.mem_map.mpr ⟨i - k g, List.mem_range.mpr (by omega), ?_⟩
    rw [Nat.add_sub_cancel' hk]
  obtain ⟨restored, evs', hrestore, hmirrors', hwin'⟩ :=
    hmirrors.restore hdet hevs hwin hcap shards
  have hsmall' := hmirrors'.framePos_lt hwin'
  refine ⟨restored, hrestore, fun filter hlimit order order' sel sel' => ?_⟩
  have hlogged : ∀ ev, Logged fb (restoredLog history k) ev ↔
      Logged fb (fun g => (history g).drop (k g)) ev ∧
        (ShardId.fromKind ev.kind.toNat).isPersistent = true := by
    intro ev
    constructor
    · rintro ⟨g, payload, hpayload, hread⟩
      obtain ⟨hpersistent, hmem⟩ := mem_restoredLog.mp hpayload
      refine ⟨⟨g, payload, hmem, hread⟩, ?_⟩
      rw [hmirrors.sharded g payload (mem_of_mem_drop hmem) ev hread]
      exact hpersistent
    · rintro ⟨⟨g, payload, hmem, hread⟩, hpersistent⟩
      rw [hmirrors.sharded g payload (mem_of_mem_drop hmem) ev hread] at hpersistent
      exact ⟨g, payload, mem_restoredLog.mpr ⟨hpersistent, hmem⟩, hread⟩
  have hdet₂ : DeterminedIds evs' := by
    refine hdet₁.of_subset fun ev hev => (hmirrors.logged ev).mpr ?_
    obtain ⟨⟨g, payload, hmem, hread⟩, -⟩ := (hlogged ev).mp ((hmirrors'.logged ev).mp hev)
    exact ⟨g, payload, mem_of_mem_drop hmem, hread⟩
  -- the last copy of an event is the same in both
  obtain ⟨copy, hcopy⟩ := hmirrors.exists_copy hdet₁
  have hcopy' : ∀ ev bytes, (∃ g i, LastCopy fb (restoredLog history k g) ev.id i bytes) →
      bytes = copy ev := by
    rintro ev bytes ⟨g, i, hlast⟩
    rcases hpersistent : g.isPersistent
    · rw [restoredLog, if_neg (by rw [hpersistent]; decide)] at hlast
      cases hlast.get
    · rw [restoredLog, if_pos hpersistent] at hlast
      exact hcopy ev bytes ⟨g, k g + i, hlast.of_drop⟩
  obtain ⟨before, hbefore, hperm, hlast⟩ := hmirrors.query hdet₁ order sel hlimit hcopy
  obtain ⟨after, hafter, hperm', -⟩ := hmirrors'.query hdet₂ order' sel' hlimit hcopy'
  refine ⟨before, after, hbefore, hafter, hperm'.trans (.trans ?_ (hperm.filter _).symm)⟩
  rw [filter_map]
  refine List.Perm.map copy ((perm_ext_iff_of_nodup (NostrDB.nodup_visibleEvents _ _ _)
    ((NostrDB.nodup_visibleEvents _ _ _).filter _)).mpr fun ev => ?_)
  have hpersistent : ∀ ev ∈ db.visibleEvents evs filter, holdsPersistent fb (copy ev)
      = (ShardId.fromKind ev.kind.toNat).isPersistent := by
    intro ev hev
    obtain ⟨g, i, hcopy⟩ := hlast ev hev
    obtain ⟨x, hx, hid⟩ := hcopy.reads
    rw [holdsPersistent, hx, hdet₁ x (hmirrors.mem_of_get hcopy.get hx) ev
      (NostrDB.exists_record_of_visible hev).1 hid, Option.any_some]
  rw [hmirrors'.mem_visibleEvents hdet₂ hwin' (fun g i _ hi => hsmall' g i hi), mem_filter]
  simp only [drop_zero]
  rw [hlogged]
  constructor
  · rintro ⟨⟨hlog, hpers⟩, hmatches⟩
    have hev := (hmirrors.mem_visibleEvents hdet₁ hwin hsmall).mpr ⟨hlog, hmatches⟩
    exact ⟨hev, (hpersistent ev hev).trans hpers⟩
  · rintro ⟨hev, hpers⟩
    obtain ⟨hlog, hmatches⟩ := (hmirrors.mem_visibleEvents hdet₁ hwin hsmall).mp hev
    exact ⟨⟨hlog, (hpersistent ev hev).symm.trans hpers⟩, hmatches⟩

def NostrDB.answers (db : NostrDB) (filter : QueryFilter) : List Bytes :=
  match db.queryEventsWithFilter (.entries _) (.sort _) filter with
  | .ok result => result.events
  | .error _ => []

/-- A note is stored, saved and restored. -/
theorem snapshot_preserves_answers_note :
    let fresh := (NostrDB.new 8388608).initializeDb noteReaders
    let db := (fresh.runCalls noteReaders ⟨fun _ => noteBytes⟩
      [.addWorkerMessageBytes noteBytes]).1
    ∃ restored, fresh.restore noteReaders (.entries _) db.storage.saveAllShards = .ok restored ∧
      ∃ after, restored.queryEventsWithFilter (.entries _) (.sort _) QueryFilter.new = .ok after ∧
        after.events = [noteBytes] := by
  intro fresh db
  have hanswers : (db.answers QueryFilter.new).filter (holdsPersistent noteReaders)
      = [noteBytes] := by decide +kernel
  have hplain : DbCall.AddsPlain noteReaders ⟨fun _ => noteBytes⟩
      (.addWorkerMessageBytes noteBytes) :=
    DbCall.addsPlain_of_read (show noteReaders.storedEvent noteBytes = some note.event by
      decide +kernel) (by decide)
  obtain ⟨restored, hrestore, hquery⟩ := snapshot_preserves_answers noteReaders
    ⟨fun _ => noteBytes⟩ noteReaders_rejectsEmpty 8388608 (by decide)
    [.addWorkerMessageBytes noteBytes] (List.forall_mem_singleton.mpr hplain)
    (by decide +kernel) (by intro g; cases g <;> decide +kernel) (.entries _)
  obtain ⟨before, after, hbefore, hafter, hperm⟩ :=
    hquery QueryFilter.new rfl (.entries _) (.entries _) (.sort _) (.sort _)
  refine ⟨restored, hrestore, after, hafter, ?_⟩
  have hevents : db.answers QueryFilter.new = before.events := by
    unfold NostrDB.answers
    rw [show db.queryEventsWithFilter (.entries _) (.sort _) QueryFilter.new = .ok before
      from hbefore]
  rw [← hevents, hanswers] at hperm
  exact List.perm_singleton.mp hperm

/-! ### An id that is used twice -/

def reusedProfile : NostrEvent := { note with kind := 0 }

/-- Its `WorkerMessage`: the kind is in the byte 62. -/
def reusedProfileBytes : Bytes := noteBytes.set 62 0

def reusedReaders : FlatBuffers :=
  .ofTable [(noteBytes, .nostrEvent note), (reusedProfileBytes, .nostrEvent reusedProfile)]

def reusedCalls : List DbCall :=
  [.addWorkerMessageBytes noteBytes, .addWorkerMessageBytes reusedProfileBytes]

/-- The two are in different shards.  Before the snapshot the id stands for the
profile, which came last; the shard of the profiles is loaded first, and then
the id stands for the note. -/
theorem reused_id_answers :
    let fresh := (NostrDB.new 8388608).initializeDb reusedReaders
    let db := (fresh.runCalls reusedReaders ⟨fun _ => noteBytes⟩ reusedCalls).1
    (∀ c ∈ reusedCalls, c.AddsPlain reusedReaders ⟨fun _ => noteBytes⟩) ∧
      (∀ g, ∀ inner ∈ (db.storage.shards g).loadEvents, inner < 2 ^ 56) ∧
      (db.answers QueryFilter.new).filter (holdsPersistent reusedReaders) = [reusedProfileBytes] ∧
      ∃ restored, fresh.restore reusedReaders (.entries _) db.storage.saveAllShards = .ok restored ∧
        restored.answers QueryFilter.new = [noteBytes] ∧ noteBytes ≠ reusedProfileBytes := by
  intro fresh db
  refine ⟨?_, ?_, by decide +kernel, ?_⟩
  · have hnote : reusedReaders.storedEvent noteBytes = some note.event := by decide +kernel
    have hprofile : reusedReaders.storedEvent reusedProfileBytes = some reusedProfile.event := by
      decide +kernel
    exact List.forall_mem_cons.mpr ⟨DbCall.addsPlain_of_read hnote (by decide),
      List.forall_mem_singleton.mpr (DbCall.addsPlain_of_read hprofile (by decide))⟩
  · have hoffsets : ∀ g ∈ ShardId.all, ∀ inner ∈ (db.storage.shards g).loadEvents,
        inner < 2 ^ 56 := by decide +kernel
    exact fun g => hoffsets g (ShardId.mem_all g)
  · have hrestored : ((fresh.restore reusedReaders (.entries _) db.storage.saveAllShards).toOption.map
        fun restored => restored.answers QueryFilter.new) = some [noteBytes] := by decide +kernel
    rcases hrestore : fresh.restore reusedReaders (.entries _) db.storage.saveAllShards with e | restored
    · rw [hrestore] at hrestored
      cases hrestored
    · rw [hrestore] at hrestored
      exact ⟨restored, rfl, Option.some.inj hrestored, by decide +kernel⟩

end Nipworker
