/-
The fate of one event under a stream of deletions.

The suppressed set of the cache comes out of four routes (an `e` tag or an `a`
tag on a cached event, a pending id, a recorded address) at two different
times.  Followed for a single target event they are a small automaton, `Fate`:
has the event arrived, is it hidden, which pending reference waits for it, and
is its address recorded by a deletion that reaches it.
-/
import Nipworker.Storage.DeletionTags

namespace Nipworker

open List

variable {evs : List Event} {t : Event}

/-! ### The automaton -/

/-- A call on the index: an event is indexed, or a stored deletion replayed. -/
inductive IndexOp
  | index (ev : Event) (offset : ℕ)
  | replay (ev : Event)

def IndexOp.event : IndexOp → Event
  | .index ev _ => ev
  | .replay ev => ev

def IndexState.step (st : IndexState) : IndexOp → IndexState
  | .index ev offset => indexEvent st ev offset
  | .replay ev => applyDeletions st ev

def IndexState.run (st : IndexState) (ops : List IndexOp) : IndexState := ops.foldl step st

def indexedEvents : List IndexOp → List Event → List Event
  | [], evs => evs
  | .index ev _ :: rest, evs => indexedEvents rest (ev :: evs)
  | .replay _ :: rest, evs => indexedEvents rest evs

/-- What is known of one target. -/
structure Fate where
  arrived : Bool
  hidden : Bool
  pending : Option (String × ℕ)
  addressed : Bool
  deriving DecidableEq

namespace Fate

def init : Fate := { arrived := false, hidden := false, pending := none, addressed := false }

/-- The target is indexed: a pending reference of its own author or a recorded
address hides it. -/
def arrive (t : Event) (f : Fate) : Fate :=
  { f with
    arrived := true
    hidden := f.hidden || f.pending.any (fun slot => slot.1 = t.pubkey) || f.addressed }

def delete (t : Event) (f : Fate) (del : Event) : Fate :=
  { f with
    hidden := f.hidden || (f.arrived && covers del t)
    pending := if f.arrived = false ∧ del.HasTag "e" t.id then
        bump f.pending del.pubkey del.createdAt
      else f.pending
    addressed := f.addressed || addresses del t }

def step (t : Event) (f : Fate) : IndexOp → Fate
  | .index ev _ =>
    let f := if ev.id = t.id then arrive t f else f
    if ev.kind = eventDeletion then delete t f ev else f
  | .replay ev => if ev.kind = eventDeletion then delete t f ev else f

def run (t : Event) (f : Fate) (ops : List IndexOp) : Fate := ops.foldl (step t) f

end Fate

/-! ### The automaton agrees with the cache -/

/-- The target's address is recorded by a deletion that reaches it. -/
def AddressRecorded (T : Tombstones) (t : Event) : Prop :=
  isAddressable t.kind = true ∧ ∃ d, firstDTag t.tags = some d ∧
    ∃ deletionTs, T.deletedAddresses.lookup (addressText t.kind t.pubkey d) = some deletionTs ∧
      t.createdAt ≤ deletionTs

/-- The cache over the events `evs`, seen from the target `t`. -/
structure Tracks (t : Event) (evs : List Event) (st : IndexState) (f : Fate) : Prop where
  represents : st.indexes.Represents evs
  known : ∀ key ∈ st.tombstones.deletedKeys, ∃ id, st.indexes.HasKey id key
  arrived : f.arrived = true ↔ ∃ r, st.indexes.record t.id = some r
  hidden : f.hidden = true ↔ st.Suppressed t.id
  pending : f.pending = st.tombstones.pendingIds.lookup t.id
  addressed : f.addressed = true ↔ AddressRecorded st.tombstones t

theorem tracks_empty (t : Event) : Tracks t [] IndexState.empty Fate.init := by
  refine ⟨DatabaseIndexes.represents_new, ?_, ?_, ?_, rfl, ?_⟩
  · intro key hkey
    exact absurd hkey (Finset.notMem_empty key)
  · simp [Fate.init, IndexState.empty, DatabaseIndexes.new, DatabaseIndexes.record]
  · simp [Fate.init, IndexState.Suppressed, IndexState.empty, Tombstones.default]
  · simp [Fate.init, AddressRecorded, IndexState.empty, Tombstones.default]

theorem addresses_iff (del t : Event) :
    addresses del t = true ↔ isAddressable t.kind = true ∧ ∃ d, firstDTag t.tags = some d ∧
      del.tags.any (isATag del.pubkey (addressText t.kind t.pubkey d)) = true ∧
      t.createdAt ≤ del.createdAt := by
  rw [addresses, Bool.and_eq_true]
  refine and_congr_right fun _ => ?_
  rcases firstDTag t.tags with _ | d
  · simp
  · simp only [Bool.and_eq_true, decide_eq_true_eq, Option.some.injEq, exists_eq_left',
      Event.anyTag_iff, any_eq_true, isATag]
    refine and_congr_left fun _ => ?_
    constructor
    · rintro ⟨v, ⟨tag, htag, hp⟩, hrec, rfl⟩
      exact ⟨tag, htag, hp, hrec⟩
    · rintro ⟨tag, htag, hp, hrec⟩
      exact ⟨_, ⟨tag, htag, hp⟩, hrec, rfl⟩

theorem latest_le_iff {old : Option ℕ} {ts c : ℕ} :
    (∃ x, latest old ts = some x ∧ c ≤ x) ↔ (∃ x, old = some x ∧ c ≤ x) ∨ c ≤ ts := by
  rcases old with _ | x <;> simp [latest]

variable {st : IndexState}

theorem Tracks.delete {f : Fate} {del : Event} (h : Tracks t evs st f)
    (hdet : DeterminedIds (t :: evs)) :
    Tracks t evs (processDeletionTags st del.pubkey del.createdAt del.tags)
      (Fate.delete t f del) := by
  have hdet' : DeterminedIds evs := hdet.of_subset fun _ hev => mem_cons_of_mem _ hev
  refine ⟨h.represents, ?_, h.arrived, ?_, ?_, ?_⟩
  · intro key hkey
    rcases deletedKeys_foldl_subset h.represents del.tags hkey with hkey | hkey
    · exact h.known key hkey
    · exact hkey
  · -- suppression: a cached target is hidden by a tag that covers it
    simp only [Fate.delete, Bool.or_eq_true, Bool.and_eq_true, h.hidden, h.arrived]
    by_cases harr : ∃ r, st.indexes.record t.id = some r
    · have ht : t ∈ evs := by
        obtain ⟨ev, hev, hid⟩ := (h.represents.indexed t.id).mp harr
        rw [← hdet ev (mem_cons_of_mem _ hev) t mem_cons_self hid]
        exact hev
      obtain ⟨r, hr⟩ := harr
      have hmem := mem_deletedKeys_foldl h.represents hdet' ht ⟨r, hr, rfl⟩ del.pubkey
        del.createdAt del.tags st.tombstones
      rw [any_tagCovers] at hmem
      simp only [IndexState.Suppressed, processDeletionTags, hr, Option.some.injEq, exists_eq_left',
        exists_eq', true_and]
      exact hmem.symm
    · have hnone : ∀ T : Tombstones,
          ¬ (IndexState.Suppressed { st with tombstones := T } t.id) := by
        rintro T ⟨r, hr, -⟩
        exact harr ⟨r, hr⟩
      have h1 : ¬ st.Suppressed t.id := hnone st.tombstones
      have h2 : ¬ (processDeletionTags st del.pubkey del.createdAt del.tags).Suppressed t.id :=
        hnone _
      simp [h1, h2, harr]
  · -- the pending reference: bumped only while the target is away
    have harr : f.arrived = false ↔ (st.indexes.record t.id).isNone = true := by
      rw [← Bool.not_eq_true, h.arrived]
      rcases st.indexes.record t.id with _ | r <;> simp
    simp only [Fate.delete, processDeletionTags, pendingIds_foldl, any_isETag, decide_eq_true_eq,
      h.pending, harr]
  · simp only [Fate.delete, Bool.or_eq_true, h.addressed, addresses_iff]
    unfold AddressRecorded processDeletionTags
    rw [← and_or_left]
    refine and_congr_right fun _ => ?_
    rcases firstDTag t.tags with _ | d
    · simp
    · simp only [Option.some.injEq, exists_eq_left', deletedAddresses_foldl]
      by_cases hany : del.tags.any (isATag del.pubkey (addressText t.kind t.pubkey d)) = true
      · rw [if_pos hany, latest_le_iff]
        simp [hany]
      · rw [if_neg hany]
        simp [hany]

/-- What `applyTombstonesToEvent` suppresses: the new event, when a pending
reference of its author or a recorded address waits for it. -/
theorem mem_deletedKeys_applyTombstones {T : Tombstones} {key key' : EventKey} {ev : Event} :
    key' ∈ (applyTombstonesToEvent T key ev.id ev.pubkey ev.kind ev.createdAt
        (firstDTag ev.tags)).deletedKeys ↔
      key' ∈ T.deletedKeys ∨ (key' = key ∧
        ((T.pendingIds.lookup ev.id).any (fun slot => slot.1 = ev.pubkey) = true ∨
          AddressRecorded T ev)) := by
  have haddr : key' ∈ (applyAddressTombstone T key ev.pubkey ev.kind ev.createdAt
      (firstDTag ev.tags)).deletedKeys ↔
      key' ∈ T.deletedKeys ∨ (key' = key ∧ AddressRecorded T ev) := by
    unfold applyAddressTombstone AddressRecorded
    by_cases hkind : isAddressable ev.kind = true
    · rw [if_pos hkind]
      rcases firstDTag ev.tags with _ | d
      · simp
      · dsimp only
        rcases hlook : T.deletedAddresses.lookup (addressText ev.kind ev.pubkey d) with _ | x
        · simp [hlook]
        · by_cases hx : ev.createdAt ≤ x
          · simp [hlook, hx, hkind, or_comm]
          · simp [hlook, hx]
    · simp [hkind]
  unfold applyTombstonesToEvent
  by_cases hempty : T.isEmpty = true
  · -- nothing recorded: neither a pending reference nor an address
    rw [if_pos hempty]
    simp only [Tombstones.isEmpty, decide_eq_true_eq] at hempty
    have h1 : T.pendingIds = ∅ := AList.ext hempty.2.1
    have h2 : T.deletedAddresses = ∅ := AList.ext hempty.2.2
    simp [AddressRecorded, h1, h2]
  · rw [if_neg hempty]
    rcases T.pendingIds.lookup ev.id with _ | ⟨a, x⟩
    · simpa using haddr
    · dsimp only
      by_cases ha : a = ev.pubkey
      · simp [ha, or_comm]
      · simpa [ha] using haddr

theorem applyTombstones_pendingIds (T : Tombstones) (key : EventKey) (id author : String)
    (kind : UInt16) (createdAt : ℕ) (dTag : Option String) :
    (applyTombstonesToEvent T key id author kind createdAt dTag).pendingIds = T.pendingIds := by
  unfold applyTombstonesToEvent applyAddressTombstone
  (repeat' split) <;> rfl

theorem applyTombstones_deletedAddresses (T : Tombstones) (key : EventKey) (id author : String)
    (kind : UInt16) (createdAt : ℕ) (dTag : Option String) :
    (applyTombstonesToEvent T key id author kind createdAt dTag).deletedAddresses
      = T.deletedAddresses := by
  unfold applyTombstonesToEvent applyAddressTombstone
  (repeat' split) <;> rfl

/-- The state between the two halves of `indexEvent`: the event is under its
keys and checked against the tombstones, its own deletions are still to come. -/
def arriveEvent (st : IndexState) (ev : Event) (offset : ℕ) : IndexState :=
  { indexes := (st.indexes.indexFields ev offset).1
    tombstones := applyTombstonesToEvent st.tombstones (st.indexes.indexFields ev offset).2
      ev.id ev.pubkey ev.kind ev.createdAt (firstDTag ev.tags) }

theorem Tracks.arrive {f : Fate} {ev : Event} (h : Tracks t evs st f)
    (hdet : DeterminedIds (t :: ev :: evs)) (offset : ℕ) :
    Tracks t (ev :: evs) (arriveEvent st ev offset)
      (if ev.id = t.id then Fate.arrive t f else f) := by
  have hdet' : DeterminedIds (ev :: evs) :=
    hdet.of_subset fun _ hx => mem_cons_of_mem _ hx
  have hrep := h.represents.indexFields hdet' offset
  have hown : (arriveEvent st ev offset).indexes.HasKey ev.id
      (st.indexes.indexFields ev offset).2 :=
    DatabaseIndexes.indexFields_hasKey.mpr (.inr ⟨rfl, rfl⟩)
  have hknown : ∀ key ∈ (arriveEvent st ev offset).tombstones.deletedKeys,
      ∃ id, (arriveEvent st ev offset).indexes.HasKey id key := by
    intro key hkey
    rcases mem_deletedKeys_applyTombstones.mp hkey with hkey | ⟨rfl, -⟩
    · obtain ⟨id, hid⟩ := h.known key hkey
      exact ⟨id, DatabaseIndexes.indexFields_hasKey.mpr (.inl hid)⟩
    · exact ⟨ev.id, hown⟩
  have hpend : (arriveEvent st ev offset).tombstones.pendingIds = st.tombstones.pendingIds :=
    applyTombstones_pendingIds _ _ _ _ _ _ _
  have haddr : AddressRecorded (arriveEvent st ev offset).tombstones t ↔
      AddressRecorded st.tombstones t := by
    unfold AddressRecorded arriveEvent
    rw [applyTombstones_deletedAddresses]
  have hrec := DatabaseIndexes.indexFields_record st.indexes ev offset t.id
  by_cases hid : ev.id = t.id
  · -- the target itself arrives
    have hev : ev = t := hdet ev (by simp) t mem_cons_self hid
    subst hev
    rw [if_pos rfl]
    rw [if_pos rfl] at hrec
    refine ⟨hrep, hknown, ?_, ?_, ?_, ?_⟩
    · simp [Fate.arrive, arriveEvent, hrec]
    · -- its key was suppressed before exactly if it was there and suppressed
      have hold : (st.indexes.indexFields ev offset).2 ∈ st.tombstones.deletedKeys ↔
          st.Suppressed ev.id := by
        rw [DatabaseIndexes.indexFields_key, DatabaseIndexes.upsertEventRecord_key]
        rcases hr : st.indexes.record ev.id with _ | r
        · have hfree : st.indexes.nextEventKey ∉ st.tombstones.deletedKeys := by
            intro hmem
            obtain ⟨id, hk⟩ := h.known _ hmem
            exact absurd (h.represents.fresh id _ hk) (lt_irrefl _)
          simp [IndexState.Suppressed, hr, hfree]
        · simp [IndexState.Suppressed, hr]
      have hsupp : (arriveEvent st ev offset).Suppressed ev.id ↔
          (st.indexes.indexFields ev offset).2 ∈
            (arriveEvent st ev offset).tombstones.deletedKeys := by
        simp [IndexState.Suppressed, arriveEvent, hrec]
      rw [hsupp, arriveEvent, mem_deletedKeys_applyTombstones, hold]
      simp only [Fate.arrive, Bool.or_eq_true, h.hidden, h.pending, h.addressed, true_and]
      rw [or_assoc]
    · simp only [Fate.arrive, h.pending, hpend]
    · simp only [Fate.arrive, h.addressed, haddr]
  · -- another event arrives: the target keeps its record and its key
    rw [if_neg (Ne.symm hid)] at hrec
    rw [if_neg hid]
    refine ⟨hrep, hknown, ?_, ?_, ?_, ?_⟩
    · rw [h.arrived]
      simp [arriveEvent, hrec]
    · rw [h.hidden]
      refine exists_congr fun r => ?_
      have hsame : (arriveEvent st ev offset).indexes.record t.id = st.indexes.record t.id := hrec
      rw [hsame]
      refine and_congr_right fun hr => ?_
      have hne : r.key ≠ (st.indexes.indexFields ev offset).2 := by
        intro hk
        refine hid (hrep.inj _ _ _ hown ?_)
        exact ⟨r, by rw [hrec]; exact hr, hk⟩
      rw [arriveEvent, mem_deletedKeys_applyTombstones]
      simp [hne]
    · rw [h.pending, hpend]
    · rw [h.addressed, haddr]

theorem Tracks.applyDeletions {f : Fate} {del : Event} (h : Tracks t evs st f)
    (hdet : DeterminedIds (t :: evs)) :
    Tracks t evs (applyDeletions st del)
      (if del.kind = eventDeletion then Fate.delete t f del else f) := by
  unfold Nipworker.applyDeletions
  split
  · exact h.delete hdet
  · exact h

theorem Tracks.step {f : Fate} {op : IndexOp} (h : Tracks t evs st f)
    (hdet : DeterminedIds (t :: op.event :: evs)) :
    Tracks t (indexedEvents [op] evs) (st.step op) (Fate.step t f op) := by
  cases op with
  | index ev offset =>
    have harr := h.arrive hdet offset
    exact harr.applyDeletions hdet
  | replay ev =>
    exact h.applyDeletions (hdet.of_subset fun x hx => by
      rcases List.mem_cons.mp hx with rfl | hx
      · exact mem_cons_self
      · exact mem_cons_of_mem _ (mem_cons_of_mem _ hx))

theorem indexedEvents_subset (ops : List IndexOp) : ∀ {evs : List Event} {x : Event},
    x ∈ indexedEvents ops evs → x ∈ ops.map IndexOp.event ∨ x ∈ evs := by
  induction ops with
  | nil => exact fun hx => .inr hx
  | cons op rest ih =>
    intro evs x hx
    cases op with
    | index ev offset =>
      rcases ih hx with h | h
      · exact .inl (mem_cons_of_mem _ h)
      · rcases List.mem_cons.mp h with rfl | h
        · exact .inl mem_cons_self
        · exact .inr h
    | replay ev =>
      rcases ih hx with h | h
      · exact .inl (mem_cons_of_mem _ h)
      · exact .inr h

/-- The indexes track the automaton along every run of indexing and replaying. -/
theorem Tracks.run (ops : List IndexOp) : ∀ {evs : List Event} {st : IndexState} {f : Fate},
    Tracks t evs st f → DeterminedIds (t :: (ops.map IndexOp.event ++ evs)) →
      Tracks t (indexedEvents ops evs) (st.run ops) (Fate.run t f ops) := by
  induction ops with
  | nil => exact fun h _ => h
  | cons op rest ih =>
    intro evs st f h hdet
    have hstep : Tracks t (indexedEvents [op] evs) (st.step op) (Fate.step t f op) := by
      refine h.step (hdet.of_subset fun x hx => ?_)
      simp only [mem_cons, map_cons, cons_append, mem_append] at hx ⊢
      tauto
    have hnext := ih hstep (hdet.of_subset fun x hx => by
      simp only [mem_cons, map_cons, cons_append, mem_append] at hx ⊢
      rcases hx with hx | hx | hx
      · exact .inl hx
      · exact .inr (.inr (.inl hx))
      · rcases indexedEvents_subset [op] hx with hx | hx
        · simp only [map_cons, map_nil, mem_singleton] at hx
          exact .inr (.inl hx)
        · exact .inr (.inr (.inr hx)))
    cases op <;> exact hnext

theorem suppressed_iff_hidden {t : Event} {ops : List IndexOp}
    (hdet : DeterminedIds (t :: ops.map IndexOp.event)) :
    (IndexState.empty.run ops).Suppressed t.id ↔ (Fate.run t Fate.init ops).hidden = true :=
  ((tracks_empty t).run ops (by rwa [append_nil])).hidden.symm

theorem exists_indexed_of_suppressed {ops : List IndexOp} {id : String}
    (hdet : DeterminedIds (ops.map IndexOp.event))
    (h : (IndexState.empty.run ops).Suppressed id) :
    ∃ t ∈ indexedEvents ops [], t.id = id := by
  obtain ⟨r, hr, -⟩ := h
  cases ops with
  | nil => cases hr
  | cons op rest =>
    have hdet' : DeterminedIds (op.event :: ((op :: rest).map IndexOp.event ++ [])) := by
      refine hdet.of_subset fun x hx => ?_
      rw [append_nil] at hx
      rcases List.mem_cons.mp hx with rfl | hx
      · exact mem_cons_self
      · exact hx
    exact (((tracks_empty op.event).run (op :: rest) hdet').represents.indexed id).mp ⟨r, hr⟩

end Nipworker
