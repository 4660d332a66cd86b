/-
What the indexes say about the indexed events.

`Represents ix evs` is the representation invariant of `DatabaseIndexes` over
the list of events indexed so far: records exist for exactly their ids,
`eventsById` and `eventsByKey` are inverse to each other, and each secondary
set holds exactly the keys of the events whose fields call for it.
-/
import Nipworker.Storage.Index

namespace Nipworker

open List

/-- An id determines its event. -/
def DeterminedIds (evs : List Event) : Prop :=
  ∀ a ∈ evs, ∀ b ∈ evs, a.id = b.id → a = b

instance (evs : List Event) : Decidable (DeterminedIds evs) :=
  inferInstanceAs (Decidable (∀ x ∈ evs, ∀ y ∈ evs, x.id = y.id → x = y))

theorem DeterminedIds.of_subset {evs evs' : List Event} (h : DeterminedIds evs)
    (hsub : ∀ ev ∈ evs', ev ∈ evs) : DeterminedIds evs' :=
  fun a ha b hb => h a (hsub a ha) b (hsub b hb)

namespace DatabaseIndexes

/-- The event `id` is indexed under `key`. -/
def HasKey (ix : DatabaseIndexes) (id : String) (key : EventKey) : Prop :=
  ∃ r, ix.record id = some r ∧ r.key = key

/-- The indexes represent the events `evs`. -/
structure Represents (ix : DatabaseIndexes) (evs : List Event) : Prop where
  /-- A record is there for exactly the ids of the events. -/
  indexed : ∀ id, (∃ r, ix.record id = some r) ↔ ∃ ev ∈ evs, ev.id = id
  /-- A record carries its event's creation time. -/
  createdAt : ∀ ev ∈ evs, ∀ r, ix.record ev.id = some r → r.createdAt = ev.createdAt
  /-- Two events never share a key. -/
  inj : ∀ id id' key, ix.HasKey id key → ix.HasKey id' key → id = id'
  /-- Keys that are not handed out yet are free. -/
  fresh : ∀ id key, ix.HasKey id key → key < ix.nextEventKey
  /-- `eventsByKey` is the inverse of `eventsById`. -/
  byKey : ∀ key r, ix.eventsByKey.lookup key = some r ↔
    r.key = key ∧ ∃ id, ix.record id = some r
  byKind : ∀ k key, key ∈ ix.eventsByKind.bucket k ↔
    ∃ ev ∈ evs, ev.kind = k ∧ ix.HasKey ev.id key
  byPubkey : ∀ pk key, key ∈ ix.eventsByPubkey.bucket pk ↔
    ∃ ev ∈ evs, ev.pubkey = pk ∧ ix.HasKey ev.id key
  byTag : ∀ n v key, key ∈ (ix.eventsByTag n).bucket v ↔
    ∃ ev ∈ evs, ev.HasTag n.text v ∧ ix.HasKey ev.id key

/-- The empty indexes represent no event. -/
theorem represents_new : Represents DatabaseIndexes.new [] := by
  have hrec : ∀ id, DatabaseIndexes.new.record id = none := fun _ => rfl
  have hkey : ∀ id key, ¬ DatabaseIndexes.new.HasKey id key := by
    rintro id key ⟨r, hr, -⟩
    rw [hrec] at hr
    cases hr
  refine ⟨?_, ?_, ?_, ?_, ?_, ?_, ?_, ?_⟩
  · intro id
    simp [hrec]
  · intro ev hev
    cases hev
  · intro id id' key h
    exact absurd h (hkey id key)
  · intro id key h
    exact absurd h (hkey id key)
  · intro key r
    have hlook : DatabaseIndexes.new.eventsByKey.lookup key = none := rfl
    simp [hrec, hlook]
  · intro k key
    simp [DatabaseIndexes.new]
  · intro pk key
    simp [DatabaseIndexes.new]
  · intro n v key
    simp [DatabaseIndexes.new]

/-! ### The record of an event -/

variable {ix : DatabaseIndexes} {evs : List Event}

theorem upsertEventRecord_key (ix : DatabaseIndexes) (id : String) (offset createdAt : ℕ) :
    (ix.upsertEventRecord id offset createdAt).2
      = ((ix.record id).map EventRecord.key).getD ix.nextEventKey := by
  rw [upsertEventRecord, record]
  cases ix.eventsById.lookup id <;> rfl

theorem upsertEventRecord_record (ix : DatabaseIndexes) (id id' : String)
    (offset createdAt : ℕ) :
    (ix.upsertEventRecord id offset createdAt).1.record id'
      = if id' = id then
          some { key := (ix.upsertEventRecord id offset createdAt).2,
                 offset := offset, createdAt := createdAt }
        else ix.record id' := by
  rw [upsertEventRecord, record, record]
  cases ix.eventsById.lookup id <;> exact Map.lookup_insert_ite _ _ _ _

theorem upsertEventRecord_eventsByKey (ix : DatabaseIndexes) (id : String)
    (offset createdAt : ℕ) (key : EventKey) :
    (ix.upsertEventRecord id offset createdAt).1.eventsByKey.lookup key
      = if key = (ix.upsertEventRecord id offset createdAt).2 then
          some { key := (ix.upsertEventRecord id offset createdAt).2,
                 offset := offset, createdAt := createdAt }
        else ix.eventsByKey.lookup key := by
  rw [upsertEventRecord]
  cases ix.eventsById.lookup id <;> exact Map.lookup_insert_ite _ _ _ _

theorem upsertEventRecord_nextEventKey (ix : DatabaseIndexes) (id : String)
    (offset createdAt : ℕ) :
    (ix.upsertEventRecord id offset createdAt).1.nextEventKey
      = if (ix.record id).isSome then ix.nextEventKey else ix.nextEventKey + 1 := by
  rw [upsertEventRecord, record]
  cases ix.eventsById.lookup id <;> rfl

@[simp] theorem upsertEventRecord_eventsByKind (ix : DatabaseIndexes) (id : String)
    (offset createdAt : ℕ) :
    (ix.upsertEventRecord id offset createdAt).1.eventsByKind = ix.eventsByKind := by
  rw [upsertEventRecord]
  cases ix.eventsById.lookup id <;> rfl

@[simp] theorem upsertEventRecord_eventsByPubkey (ix : DatabaseIndexes) (id : String)
    (offset createdAt : ℕ) :
    (ix.upsertEventRecord id offset createdAt).1.eventsByPubkey = ix.eventsByPubkey := by
  rw [upsertEventRecord]
  cases ix.eventsById.lookup id <;> rfl

@[simp] theorem upsertEventRecord_eventsByTag (ix : DatabaseIndexes) (id : String)
    (offset createdAt : ℕ) :
    (ix.upsertEventRecord id offset createdAt).1.eventsByTag = ix.eventsByTag := by
  rw [upsertEventRecord]
  cases ix.eventsById.lookup id <;> rfl

/-! ### The tags of an event -/

theorem addTag_frame (key : EventKey) (ix : DatabaseIndexes) (tag : StringVec) :
    addTag key ix tag = { ix with eventsByTag := (addTag key ix tag).eventsByTag } := by
  unfold addTag
  (repeat' split) <;> rfl

variable {key : EventKey}

theorem mem_eventsByTag_addTag {key' : EventKey} {ix : DatabaseIndexes} {tag : StringVec}
    {n : TagName} {v : String} :
    key' ∈ ((addTag key ix tag).eventsByTag n).bucket v ↔
      (key' = key ∧ tag.pair = some (n.text, v)) ∨ key' ∈ (ix.eventsByTag n).bucket v := by
  unfold addTag
  rcases hp : tag.pair with _ | ⟨name, value⟩
  · simp
  · rcases hn : TagName.ofString name with _ | m
    · -- a name without an index is no tag of `n`
      have hne : name ≠ n.text := by
        intro h
        rw [TagName.ofString_eq_some.mpr h] at hn
        cases hn
      simp [hne, hn]
    · have hm : name = m.text := TagName.ofString_eq_some.mp hn
      subst hm
      simp only [hn]
      by_cases hnm : n = m
      · subst hnm
        rw [Function.update_self, Multimap.mem_bucket_add]
        simp only [Option.some.injEq, Prod.mk.injEq, true_and]
        exact or_congr_left (by rw [and_comm]; exact and_congr_right fun _ => eq_comm)
      · rw [Function.update_of_ne hnm]
        have hne : m.text ≠ n.text := by
          intro h
          have h1 : TagName.ofString n.text = some m := TagName.ofString_eq_some.mpr h.symm
          rw [TagName.ofString_eq_some.mpr rfl] at h1
          exact hnm (Option.some.inj h1)
        simp [hne]

theorem foldl_addTag_frame (key : EventKey) (tags : List StringVec) :
    ∀ ix : DatabaseIndexes, tags.foldl (addTag key) ix
      = { ix with eventsByTag := (tags.foldl (addTag key) ix).eventsByTag } := by
  induction tags with
  | nil => exact fun _ => rfl
  | cons tag rest ih =>
    intro ix
    rw [foldl_cons, ih (addTag key ix tag), addTag_frame key ix tag]

theorem mem_eventsByTag_foldl_addTag {key' : EventKey} {n : TagName} {v : String}
    (tags : List StringVec) : ∀ ix : DatabaseIndexes,
    key' ∈ ((tags.foldl (addTag key) ix).eventsByTag n).bucket v ↔
      (key' = key ∧ ∃ tag ∈ tags, tag.pair = some (n.text, v)) ∨
        key' ∈ (ix.eventsByTag n).bucket v := by
  induction tags with
  | nil => simp
  | cons tag rest ih =>
    intro ix
    rw [foldl_cons, ih, mem_eventsByTag_addTag]
    rw [exists_mem_cons_iff, and_or_left, or_assoc]
    exact or_left_comm

/-! ### Indexing one event -/

theorem indexFields_key (ix : DatabaseIndexes) (ev : Event) (offset : ℕ) :
    (ix.indexFields ev offset).2 = (ix.upsertEventRecord ev.id offset ev.createdAt).2 := rfl

theorem indexFields_record (ix : DatabaseIndexes) (ev : Event) (offset : ℕ) (id : String) :
    (ix.indexFields ev offset).1.record id
      = if id = ev.id then
          some { key := (ix.indexFields ev offset).2, offset := offset,
                 createdAt := ev.createdAt }
        else ix.record id := by
  rw [indexFields]
  dsimp only
  rw [foldl_addTag_frame]
  exact upsertEventRecord_record ix ev.id id offset ev.createdAt

theorem indexFields_eventsByKey (ix : DatabaseIndexes) (ev : Event) (offset : ℕ)
    (key : EventKey) :
    (ix.indexFields ev offset).1.eventsByKey.lookup key
      = if key = (ix.indexFields ev offset).2 then
          some { key := (ix.indexFields ev offset).2, offset := offset,
                 createdAt := ev.createdAt }
        else ix.eventsByKey.lookup key := by
  rw [indexFields]
  dsimp only
  rw [foldl_addTag_frame]
  exact upsertEventRecord_eventsByKey ix ev.id offset ev.createdAt key

theorem indexFields_nextEventKey (ix : DatabaseIndexes) (ev : Event) (offset : ℕ) :
    (ix.indexFields ev offset).1.nextEventKey
      = if (ix.record ev.id).isSome then ix.nextEventKey else ix.nextEventKey + 1 := by
  rw [indexFields]
  dsimp only
  rw [foldl_addTag_frame]
  exact upsertEventRecord_nextEventKey ix ev.id offset ev.createdAt

theorem indexFields_eventsByKind (ix : DatabaseIndexes) (ev : Event) (offset : ℕ) :
    (ix.indexFields ev offset).1.eventsByKind
      = ix.eventsByKind.add ev.kind (ix.indexFields ev offset).2 := by
  rw [indexFields]
  dsimp only
  rw [foldl_addTag_frame]
  simp only [upsertEventRecord_eventsByKind]

theorem indexFields_eventsByPubkey (ix : DatabaseIndexes) (ev : Event) (offset : ℕ) :
    (ix.indexFields ev offset).1.eventsByPubkey
      = ix.eventsByPubkey.add ev.pubkey (ix.indexFields ev offset).2 := by
  rw [indexFields]
  dsimp only
  rw [foldl_addTag_frame]
  simp only [upsertEventRecord_eventsByPubkey]

theorem mem_eventsByTag_indexFields {ix : DatabaseIndexes} {ev : Event} {offset : ℕ}
    {n : TagName} {v : String} :
    key ∈ ((ix.indexFields ev offset).1.eventsByTag n).bucket v ↔
      (key = (ix.indexFields ev offset).2 ∧ ev.HasTag n.text v) ∨
        key ∈ (ix.eventsByTag n).bucket v := by
  rw [indexFields]
  dsimp only
  rw [mem_eventsByTag_foldl_addTag]
  simp only [upsertEventRecord_eventsByTag]
  rfl

theorem indexFields_hasKey {offset : ℕ} {ev : Event} {id : String} :
    (ix.indexFields ev offset).1.HasKey id key ↔
      ix.HasKey id key ∨ (id = ev.id ∧ key = (ix.indexFields ev offset).2) := by
  have hrec := indexFields_record ix ev offset id
  constructor
  · rintro ⟨r, hr, rfl⟩
    rw [hrec] at hr
    by_cases hid : id = ev.id
    · rw [if_pos hid] at hr
      cases hr
      exact .inr ⟨hid, rfl⟩
    · rw [if_neg hid] at hr
      exact .inl ⟨r, hr, rfl⟩
  · rintro (⟨r, hr, rfl⟩ | ⟨rfl, rfl⟩)
    · by_cases hid : id = ev.id
      · refine ⟨_, by rw [hrec, if_pos hid], ?_⟩
        rw [indexFields_key, upsertEventRecord_key, ← hid, hr]
        rfl
      · exact ⟨r, by rw [hrec, if_neg hid, hr], rfl⟩
    · exact ⟨_, by rw [hrec, if_pos rfl], rfl⟩

/-- A secondary index that `indexFields` extends by the pair of the new event
still holds exactly the keys its predicate calls for. -/
theorem Represents.bucket_step {offset : ℕ} {ev : Event} {P : Event → Prop} {before after : Prop}
    (hbefore : before ↔ ∃ x ∈ evs, P x ∧ ix.HasKey x.id key)
    (hafter : after ↔ (key = (ix.indexFields ev offset).2 ∧ P ev) ∨ before)
    (hdet : DeterminedIds (ev :: evs)) :
    after ↔ ∃ x ∈ ev :: evs, P x ∧ (ix.indexFields ev offset).1.HasKey x.id key := by
  rw [hafter, hbefore]
  constructor
  · rintro (⟨rfl, hP⟩ | ⟨x, hx, hP, hk⟩)
    · exact ⟨ev, mem_cons_self, hP, indexFields_hasKey.mpr (.inr ⟨rfl, rfl⟩)⟩
    · exact ⟨x, mem_cons_of_mem _ hx, hP, indexFields_hasKey.mpr (.inl hk)⟩
  · rintro ⟨x, hx, hP, hk⟩
    rcases indexFields_hasKey.mp hk with hold | ⟨hid, rfl⟩
    · rcases List.mem_cons.mp hx with rfl | hx
      · -- an event that was already indexed: its key did not change
        refine .inl ⟨?_, hP⟩
        obtain ⟨r, hr, hrk⟩ := hold
        rw [indexFields_key, upsertEventRecord_key, hr]
        exact hrk.symm
      · exact .inr ⟨x, hx, hP, hold⟩
    · have : x = ev := hdet x hx ev mem_cons_self hid
      exact .inl ⟨rfl, this ▸ hP⟩

/-- Indexing one more event keeps the invariant, provided an id determines its event. -/
theorem Represents.indexFields {ev : Event} (hrep : Represents ix evs)
    (hdet : DeterminedIds (ev :: evs)) (offset : ℕ) :
    Represents (ix.indexFields ev offset).1 (ev :: evs) := by
  -- the key that is handed out belongs to this event, or to none
  have hnew : ∀ id, ix.HasKey id (ix.indexFields ev offset).2 → id = ev.id := by
    intro id hk
    rw [indexFields_key, upsertEventRecord_key] at hk
    rcases hr : ix.record ev.id with _ | r
    · rw [hr] at hk
      exact absurd (hrep.fresh id _ hk) (lt_irrefl _)
    · rw [hr] at hk
      exact hrep.inj id ev.id _ hk ⟨r, hr, rfl⟩
  refine ⟨?_, ?_, ?_, ?_, ?_, ?_, ?_, ?_⟩
  · intro id
    rw [indexFields_record, exists_mem_cons_iff, ← hrep.indexed id]
    by_cases hid : id = ev.id
    · simp [hid]
    · simp [hid, Ne.symm hid]
  · intro x hx r hr
    rw [indexFields_record] at hr
    by_cases hid : x.id = ev.id
    · rw [if_pos hid] at hr
      cases hr
      rw [hdet x hx ev mem_cons_self hid]
    · rw [if_neg hid] at hr
      rcases List.mem_cons.mp hx with rfl | hx
      · exact absurd rfl hid
      · exact hrep.createdAt x hx r hr
  · intro id id' key hk hk'
    rcases indexFields_hasKey.mp hk with hk | ⟨rfl, rfl⟩
    · rcases indexFields_hasKey.mp hk' with hk' | ⟨rfl, rfl⟩
      · exact hrep.inj id id' key hk hk'
      · exact hnew id hk
    · rcases indexFields_hasKey.mp hk' with hk' | ⟨rfl, -⟩
      · exact (hnew id' hk').symm
      · rfl
  · intro id key hk
    rw [indexFields_nextEventKey]
    rcases hr : ix.record ev.id with _ | r
    · rcases indexFields_hasKey.mp hk with hk | ⟨-, rfl⟩
      · exact Nat.lt_succ_of_lt (hrep.fresh id key hk)
      · rw [indexFields_key, upsertEventRecord_key, hr]
        exact Nat.lt_succ_self _
    · rcases indexFields_hasKey.mp hk with hk | ⟨-, rfl⟩
      · exact hrep.fresh id key hk
      · rw [indexFields_key, upsertEventRecord_key, hr]
        exact hrep.fresh ev.id _ ⟨r, hr, rfl⟩
  · intro key r
    rw [indexFields_eventsByKey]
    by_cases hkey : key = (ix.indexFields ev offset).2
    · rw [if_pos hkey]
      constructor
      · intro h
        cases h
        exact ⟨hkey.symm, ev.id, by rw [indexFields_record, if_pos rfl]⟩
      · rintro ⟨rfl, id, hid⟩
        have hown : id = ev.id := by
          rcases indexFields_hasKey.mp ⟨r, hid, rfl⟩ with hk | ⟨h, -⟩
          · exact hnew id (hkey ▸ hk)
          · exact h
        rw [indexFields_record, if_pos hown] at hid
        exact hid
    · rw [if_neg hkey, hrep.byKey key r]
      refine and_congr_right fun hrk => exists_congr fun id => ?_
      rw [indexFields_record]
      by_cases hid : id = ev.id
      · rw [if_pos hid]
        constructor
        · intro hr
          refine absurd ?_ hkey
          rw [← hrk, indexFields_key, upsertEventRecord_key, ← hid, hr]
          rfl
        · intro hr
          cases hr
          exact absurd hrk.symm hkey
      · rw [if_neg hid]
  · intro k key
    refine Represents.bucket_step (P := fun x => x.kind = k) (hrep.byKind k key) ?_ hdet
    rw [indexFields_eventsByKind, Multimap.mem_bucket_add]
    exact or_congr_left (by rw [and_comm]; exact and_congr_right fun _ => eq_comm)
  · intro pk key
    refine Represents.bucket_step (P := fun x => x.pubkey = pk) (hrep.byPubkey pk key) ?_ hdet
    rw [indexFields_eventsByPubkey, Multimap.mem_bucket_add]
    exact or_congr_left (by rw [and_comm]; exact and_congr_right fun _ => eq_comm)
  · intro n v key
    exact Represents.bucket_step (P := fun x => x.HasTag n.text v) (hrep.byTag n v key)
      mem_eventsByTag_indexFields hdet

end DatabaseIndexes

/-! ### Address deletions -/

theorem mem_driver_and_others {sets : List (Finset EventKey)} {driver : Finset EventKey}
    {others : List (Finset EventKey)} {key : EventKey} (h : (driver :: others).Perm sets) :
    (key ∈ driver ∧ ∀ s ∈ others, key ∈ s) ↔ ∀ s ∈ sets, key ∈ s := by
  rw [← forall_mem_cons (p := fun s => key ∈ s)]
  exact ⟨fun hall s hs => hall s (h.mem_iff.mpr hs), fun hall s hs => hall s (h.mem_iff.mp hs)⟩

/-- The intersection of an address deletion, whichever of its sets drives it. -/
theorem mem_addressTargets {ix : DatabaseIndexes} {kind : UInt16} {author d : String} {ts : ℕ}
    {key : EventKey} :
    key ∈ addressTargets ix kind author d ts ↔
      (key ∈ (ix.eventsByTag .d).bucket d ∧ key ∈ ix.eventsByKind.bucket kind ∧
        key ∈ ix.eventsByPubkey.bucket author) ∧
      ∃ r, ix.eventsByKey.lookup key = some r ∧ r.createdAt ≤ ts := by
  rw [addressTargets, Multimap.bucket, Multimap.bucket, Multimap.bucket]
  rcases (ix.eventsByTag .d).lookup d with _ | dSet
  · simp
  rcases ix.eventsByKind.lookup kind with _ | kindSet
  · simp
  rcases ix.eventsByPubkey.lookup author with _ | pubSet
  · simp
  simp only [Option.getD_some]
  have hperm := perm_insertionSort (fun s t : Finset EventKey => s.card ≤ t.card)
    [dSet, kindSet, pubSet]
  rcases hsort : List.insertionSort (fun s t : Finset EventKey => s.card ≤ t.card)
    [dSet, kindSet, pubSet] with _ | ⟨driver, others⟩
  · rw [hsort] at hperm
    exact absurd hperm.length_eq (by simp)
  · rw [hsort] at hperm
    have hmem : (key ∈ driver ∧ ∀ s ∈ others, key ∈ s) ↔ ∀ s ∈ [dSet, kindSet, pubSet], key ∈ s :=
      mem_driver_and_others hperm
    simp only [forall_mem_cons, not_mem_nil, false_imp_iff, implies_true,
      and_true] at hmem
    rw [Finset.mem_filter, ← hmem, ← and_assoc]
    refine and_congr_right fun _ => ?_
    rcases ix.eventsByKey.lookup key with _ | r <;> simp

end Nipworker
