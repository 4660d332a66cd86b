/-
Durability of deletions.

A kind 5 is acknowledged when `persist` returns `Ok`; from then on it is owed
to the log of deletions in the blob store, until a compaction takes it out.
The log is written as a whole from memory, so this rests on two things: what is
in the blob is in memory when it is overwritten, and what the id set calls
known has reached the blob.  `StepSafe` says just that of the state before a
step; both fail when a write of the log or the loading of it has failed before.
-/
import Nipworker.Storage.Persistent

namespace Nipworker

open List

/-- Buffers have 32-bit offsets: none that is accepted is as long as
`2 ^ 32`. -/
def FlatBuffers.Bounded (fb : FlatBuffers) : Prop :=
  ∀ bytes msg, fb.workerMessage bytes = some msg → bytes.length < 2 ^ 32

theorem deletionEventId_bounded {fb : FlatBuffers} (hfb : fb.Bounded) {bytes : Bytes} {id : String}
    (h : deletionEventId fb bytes = some id) : bytes.length < 2 ^ 32 := by
  unfold deletionEventId at h
  rcases hmsg : fb.workerMessage bytes with _ | msg
  · rw [hmsg] at h
    cases h
  · exact hfb bytes msg hmsg

/-! ### The log in memory -/

/-- The log holds these entries. -/
structure WalHolds (s : PersistentStorage) (entries : List Bytes) : Prop where
  wal : s.wal = frameLog entries
  count : s.walEntries = entries.length
  bounded : ∀ entry ∈ entries, entry.length < 2 ^ 32

variable {entries : List Bytes} {s : PersistentStorage} (fb : FlatBuffers)

theorem walIdsOf_frameLog (h : ∀ entry ∈ entries, entry.length < 2 ^ 32) :
    walIdsOf fb (frameLog entries) = (entries.filterMap (deletionEventId fb)).toFinset := by
  rw [walIdsOf, unframe_frameLog h]

theorem WalHolds.mem_walIdsOf {fb : FlatBuffers} (h : WalHolds s entries) {id : String} :
    id ∈ walIdsOf fb s.wal ↔ ∃ entry ∈ entries, deletionEventId fb entry = some id := by
  rw [h.wal, walIdsOf_frameLog fb h.bounded, mem_toFinset, mem_filterMap]

theorem walBoundaries_frameLog (entries : List Bytes)
    (h : ∀ entry ∈ entries, entry.length < 2 ^ 32) : ∀ offset : ℕ,
    walBoundaries offset (frameLog entries)
      = (List.range entries.length).map fun i => offset + framePos entries i := by
  induction entries with
  | nil =>
    intro offset
    rw [walBoundaries]
    rfl
  | cons entry rest ih =>
    intro offset
    have hlen := length_frameLog_cons entry rest
    have hsize : U32.ofLeBytes (frameLog (entry :: rest)) = entry.length :=
      ofLeBytes_frameLog (h entry mem_cons_self) _
    have hdrop : (frameLog (entry :: rest)).drop (4 + entry.length) = frameLog rest :=
      drop_left' (length_frame entry)
    rw [walBoundaries, if_neg (by omega), hsize]
    dsimp only
    rw [hdrop, ih (fun x hx => h x (mem_cons_of_mem _ hx)), length_cons,
      range_succ_eq_map, map_cons, map_map]
    refine congrArg₂ List.cons rfl (map_congr_left fun i _ => ?_)
    show _ = offset + framePos (entry :: rest) (i + 1)
    rw [framePos_cons_succ]
    omega

/-- The last entries of a list, at most `n` of them. -/
def newest {α : Type} (n : ℕ) (entries : List α) : List α := entries.drop (entries.length - n)

theorem newest_eq_self {α : Type} {n : ℕ} {entries : List α} (h : entries.length ≤ n) :
    newest n entries = entries := by
  rw [newest, Nat.sub_eq_zero_of_le h, drop_zero]

theorem length_newest {α : Type} (n : ℕ) (entries : List α) :
    (newest n entries).length = min n entries.length := by
  rw [newest, length_drop]
  omega

/-- **Appending a deletion** keeps the log a log: it holds the newest entries,
with the new one at its end; a compaction makes the id set anew. -/
theorem appendWal_newest
    (h : WalHolds s entries) (id : String) {bytes : Bytes} (hbytes : bytes.length < 2 ^ 32) :
    WalHolds (appendWal fb s id bytes) (newest maxWalEntries (entries ++ [bytes])) ∧
      (appendWal fb s id bytes).walIds
        = if entries.length < maxWalEntries then insert id s.walIds
          else walIdsOf fb (appendWal fb s id bytes).wal := by
  have hall : ∀ entry ∈ entries ++ [bytes], entry.length < 2 ^ 32 := by
    intro entry hentry
    rcases List.mem_append.mp hentry with he | he
    · exact h.bounded entry he
    · rwa [List.mem_singleton.mp he]
  have hwal : s.wal ++ frame bytes = frameLog (entries ++ [bytes]) := by
    rw [frameLog_append, frameLog_singleton, h.wal]
  have hlength : (entries ++ [bytes]).length = entries.length + 1 := by
    rw [length_append, length_singleton]
  have hmax : 0 < maxWalEntries := Nat.succ_pos _
  unfold appendWal
  dsimp only
  rw [hwal, h.count]
  by_cases hmany : entries.length + 1 > maxWalEntries
  · rw [if_pos hmany, if_neg (by omega)]
    unfold compactWal
    dsimp only
    have hpos : (walBoundaries 0 (frameLog (entries ++ [bytes]))).length = entries.length + 1 := by
      rw [walBoundaries_frameLog _ hall, length_map, length_range, hlength]
    have hkeep : (walBoundaries 0 (frameLog (entries ++ [bytes]))).getD
        (entries.length + 1 - maxWalEntries) 0
        = framePos (entries ++ [bytes]) (entries.length + 1 - maxWalEntries) := by
      rw [walBoundaries_frameLog _ hall, getD_eq_getElem?_getD, List.getElem?_map,
        List.getElem?_range (by omega), Option.map_some, Option.getD_some, Nat.zero_add]
    rw [hpos, if_neg (by omega), hkeep, drop_frameLog]
    dsimp only
    refine ⟨⟨?_, ?_, ?_⟩, rfl⟩
    · rw [newest, hlength]
    · show maxWalEntries = _
      rw [length_newest, hlength]
      omega
    · exact fun entry he => hall entry (mem_of_mem_drop he)
  · rw [if_neg hmany, if_pos (by omega), newest_eq_self (by omega)]
    exact ⟨⟨rfl, hlength.symm, hall⟩, rfl⟩

theorem appendWal_spec
    (h : WalHolds s entries) (id : String) {bytes : Bytes} (hbytes : bytes.length < 2 ^ 32) :
    ∃ k ≤ entries.length, WalHolds (appendWal fb s id bytes) ((entries ++ [bytes]).drop k) ∧
      (entries.length < maxWalEntries → k = 0) := by
  have hlength : (entries ++ [bytes]).length = entries.length + 1 := by
    rw [length_append, length_singleton]
  have hmax : 0 < maxWalEntries := Nat.succ_pos _
  refine ⟨(entries ++ [bytes]).length - maxWalEntries, by omega,
    (appendWal_newest fb h id hbytes).1, by omega⟩

theorem replayWal_holds (s : PersistentStorage) (bytes : Bytes) :
    WalHolds (replayWal fb s bytes) (unframe bytes) := by
  obtain ⟨⟨rest, hrest⟩, hbounded⟩ := frameLog_unframe bytes
  have hlen : ∀ entries : List Bytes,
      (entries.map fun entry => 4 + entry.length).sum = (frameLog entries).length := by
    intro entries
    induction entries with
    | nil => rfl
    | cons entry rest ih =>
      rw [map_cons, sum_cons, ih, length_frameLog_cons]
  refine ⟨?_, rfl, hbounded⟩
  show bytes.take ((unframe bytes).map fun entry => 4 + entry.length).sum = _
  rw [hlen]
  generalize unframe bytes = entries at hrest
  rw [hrest]
  exact take_left' rfl

/-! ### What is owed to the blob -/

def World.durableIds (fb : FlatBuffers) (w : World) : Finset String :=
  walIdsOf fb ((w.blobs.lookup tombstonesKey).getD [])

theorem durableIds_of_none {w : World}
    (h : w.blobs.lookup tombstonesKey = none) : w.durableIds fb = ∅ := by
  rw [World.durableIds, h, Option.getD_none, walIdsOf, unframe_nil]
  rfl

/-- The kind 5 that a step acknowledges: it is persisted, and the outcome is
`Ok`. -/
def acknowledged (fb : FlatBuffers) (step : StorageStep) (result : Except StorageError Unit) :
    Finset String :=
  match step, result with
  | .persist _ _ _ bytes, .ok () => (deletionEventId fb bytes).toFinset
  | _, _ => ∅

/-- The deletions that a compaction has taken out of the log, beyond
`maxWalEntries`. -/
def compacted (fb : FlatBuffers) (w w' : World) (step : StorageStep) : Finset String :=
  match step with
  | .persist _ _ _ _ =>
    if w.store.walEntries < maxWalEntries then ∅
    else walIdsOf fb w.store.wal \ walIdsOf fb w'.store.wal
  | _ => ∅

section

variable (fb : FlatBuffers) (maxBufferSize : ℕ) (fails : ℕ → Bool)

/-- One step, with the deletions that are owed to the blob: those that were
acknowledged and not compacted since. -/
def World.settle (s : World × Finset String) (step : StorageStep) : World × Finset String :=
  let r := s.1.step fb maxBufferSize fails step
  (r.1, (s.2 \ compacted fb s.1 r.1 step) ∪ acknowledged fb step r.2)

/-- What a step needs of the state before it, to keep the debts.  A kind 5 that
the storage takes for known is in the blob; one that is new comes to a log that
has what the blob has. -/
def StepSafe (w : World) : StorageStep → Prop
  | .persist _ _ _ bytes => ∀ id, deletionEventId fb bytes = some id →
      if id ∈ w.store.walIds then id ∈ w.durableIds fb
      else w.durableIds fb ⊆ walIdsOf fb w.store.wal
  | _ => True

/-- Every step of a run is safe in the state it is made in. -/
def RunSafe : World → List StorageStep → Prop
  | _, [] => True
  | w, step :: rest => StepSafe fb w step ∧ RunSafe (w.step fb maxBufferSize fails step).1 rest

end

/-- The invariant of a run: the log in memory is a log, and what is owed is in
the blob. -/
structure Settled (fb : FlatBuffers) (s : World × Finset String) : Prop where
  wal : ∃ entries, WalHolds s.1.store entries
  owed : s.2 ⊆ s.1.durableIds fb

theorem Frame.durableIds {fb : FlatBuffers} {w w' : World} (h : Frame w w') :
    w'.durableIds fb = w.durableIds fb := by
  rw [World.durableIds, World.durableIds, h.1]

theorem Frame.walHolds {w w' : World} (h : Frame w w')
    (hw : WalHolds w.store entries) : WalHolds w'.store entries :=
  ⟨h.2.1.trans hw.wal, h.2.2.2.trans hw.count, hw.bounded⟩

section

variable {fb : FlatBuffers} {maxBufferSize : ℕ} {fails : ℕ → Bool}

/-- The blob is as it was, and the log in memory is a log if it was one. -/
def WalKept (w w' : World) : Prop :=
  w'.blobs.lookup tombstonesKey = w.blobs.lookup tombstonesKey ∧
    ((∃ entries, WalHolds w.store entries) → ∃ entries, WalHolds w'.store entries)

instance : IsTrans World WalKept := ⟨fun _ _ _ h h' => ⟨h'.1.trans h.1, fun hw => h'.2 (h.2 hw)⟩⟩

theorem Frame.walKept {w w' : World} (h : Frame w w') : WalKept w w' :=
  ⟨h.1, fun ⟨entries, hw⟩ => ⟨entries, h.walHolds hw⟩⟩

theorem walKept_loadTombstones : Fallible.Keeps WalKept (Storage.loadTombstones fails fb) := by
  refine Fallible.Keeps.bind (fun w => (Storage.frame_get tombstonesKey w).walKept) fun stored => ?_
  rcases stored with _ | bytes
  · exact fun w => ⟨rfl, id⟩
  · exact fun w => ⟨rfl, fun _ => ⟨_, replayWal_holds fb _ bytes⟩⟩

theorem walKept_initializeStorage (order : IterOrder ShardId) (now : ℕ) :
    Fallible.Keeps WalKept (Storage.initializeStorage fails fb order now) := by
  refine Fallible.Keeps.bind (fun w => Frame.walKept ⟨rfl, rfl, rfl, rfl⟩) fun _ => ?_
  refine Fallible.Keeps.bind (fun w => (Storage.frame_hydrate order w).walKept) fun _ => ?_
  refine Fallible.Keeps.bind walKept_loadTombstones fun _ => ?_
  exact fun w => (Storage.frame_markSynced now w).walKept

variable (fb fails) in
/-- What the deletion part of `persist` does: nothing when there is no new kind
5; else the log is extended in memory, and the write of the blob fails or
succeeds. -/
theorem persistDeletion_cases (bytes : Bytes) (w : World) :
    (Storage.persistDeletion fails fb bytes w = (w, .ok ()) ∧
      ∀ id, deletionEventId fb bytes = some id → id ∈ w.store.walIds) ∨
    ∃ id w', deletionEventId fb bytes = some id ∧ id ∉ w.store.walIds ∧
      w'.store = appendWal fb w.store id bytes ∧
      ((∃ e, Storage.persistDeletion fails fb bytes w = (w', .error e) ∧ w'.blobs = w.blobs) ∨
        (Storage.persistDeletion fails fb bytes w = (w', .ok ()) ∧
          w'.blobs = AList.insert tombstonesKey w'.store.wal w.blobs)) := by
  unfold Storage.persistDeletion
  rcases hid : deletionEventId fb bytes with _ | id
  · exact .inl ⟨rfl, fun id h => by cases h⟩
  · dsimp only
    rw [Fallible.bind_ok (show Fallible.read w = (w, .ok w) from rfl)]
    by_cases hknown : id ∈ w.store.walIds
    · rw [if_pos hknown]
      refine .inl ⟨rfl, fun id' h => ?_⟩
      cases h
      exact hknown
    · rw [if_neg hknown]
      right
      show ∃ id' w', some id = some id' ∧ id' ∉ w.store.walIds ∧
        w'.store = appendWal fb w.store id' bytes ∧
        ((∃ e, Storage.put fails tombstonesKey (appendWal fb w.store id bytes).wal
            { w with store := appendWal fb w.store id bytes } = (w', .error e) ∧
            w'.blobs = w.blobs) ∨
          (Storage.put fails tombstonesKey (appendWal fb w.store id bytes).wal
            { w with store := appendWal fb w.store id bytes } = (w', .ok ()) ∧
            w'.blobs = AList.insert tombstonesKey w'.store.wal w.blobs))
      unfold Storage.put
      split
      · exact ⟨id, _, rfl, hknown, rfl, .inl ⟨_, rfl, rfl⟩⟩
      · exact ⟨id, _, rfl, hknown, rfl, .inr ⟨rfl, rfl⟩⟩

theorem Settled.of_durable {s : World × Finset String} (h : Settled fb s) {w' : World}
    {gone new : Finset String} (hblob : w'.durableIds fb = s.1.durableIds fb)
    (hnew : new ⊆ s.1.durableIds fb) (hwal : ∃ entries, WalHolds w'.store entries) :
    Settled fb (w', (s.2 \ gone) ∪ new) := by
  refine ⟨hwal, ?_⟩
  show s.2 \ gone ∪ new ⊆ w'.durableIds fb
  rw [hblob]
  exact Finset.union_subset (Finset.sdiff_subset.trans h.owed) hnew

theorem mem_walIdsOf_appendWal {s : PersistentStorage} {entries : List Bytes}
    (h : WalHolds s entries) (hfb : fb.Bounded) {id : String} {bytes : Bytes}
    (hid : deletionEventId fb bytes = some id) :
    (∃ entries', WalHolds (appendWal fb s id bytes) entries') ∧
      id ∈ walIdsOf fb (appendWal fb s id bytes).wal ∧
      (s.walEntries < maxWalEntries →
        walIdsOf fb s.wal ⊆ walIdsOf fb (appendWal fb s id bytes).wal) := by
  obtain ⟨k, hk, hholds, hfew⟩ :=
    appendWal_spec fb h id (deletionEventId_bounded hfb hid)
  refine ⟨⟨_, hholds⟩, ?_, ?_⟩
  · rw [hholds.mem_walIdsOf]
    refine ⟨bytes, ?_, hid⟩
    rw [drop_append_of_le_length hk]
    exact mem_append_right _ (mem_singleton_self bytes)
  · intro hcount x hx
    rw [h.count] at hcount
    rw [hfew hcount, drop_zero] at hholds
    rw [h.mem_walIdsOf] at hx
    rw [hholds.mem_walIdsOf]
    obtain ⟨entry, hentry, hx⟩ := hx
    exact ⟨entry, mem_append_left _ hentry, hx⟩

theorem Settled.persist (hfb : fb.Bounded) {s : World × Finset String} (h : Settled fb s)
    (order : IterOrder ShardId) (now now' : ℕ) (bytes : Bytes)
    (hsafe : StepSafe fb s.1 (.persist order now now' bytes)) :
    Settled fb (World.settle fb maxBufferSize fails s (.persist order now now' bytes)) := by
  obtain ⟨w, owed⟩ := s
  obtain ⟨entries, hwal⟩ := h.wal
  show Settled fb ((Storage.persist fails fb order now now' bytes w).1,
    owed \ compacted fb w (Storage.persist fails fb order now now' bytes w).1
      (.persist order now now' bytes)
    ∪ acknowledged fb (.persist order now now' bytes)
      (Storage.persist fails fb order now now' bytes w).2)
  unfold Storage.persist
  have hcore : Frame w (Storage.corePersist fb bytes w).1 := Storage.frame_corePersist bytes w
  rcases hc : Storage.corePersist fb bytes w with ⟨w₁, e | ⟨⟩⟩ <;> rw [hc] at hcore
  · -- the core refuses the message
    rw [Fallible.bind_error hc]
    exact h.of_durable hcore.durableIds (Finset.empty_subset _) ⟨entries, hcore.walHolds hwal⟩
  · rw [Fallible.bind_ok hc]
    rcases persistDeletion_cases fb fails bytes w₁ with
      ⟨hnone, hknown⟩ | ⟨id, w₂, hid, hnew, hstore, hput⟩
    · -- no deletion, or one that is known: it is in the blob
      rw [Fallible.bind_ok hnone]
      have hframe : Frame w (Storage.syncIfDue fails order now now' w₁).1 :=
        IsTrans.trans _ _ _ hcore (Storage.frame_syncIfDue order now now' w₁)
      refine h.of_durable hframe.durableIds ?_ ⟨entries, hframe.walHolds hwal⟩
      intro id hid
      unfold acknowledged at hid
      split at hid
      · next hstep _ =>
        cases hstep
        rw [Option.mem_toFinset] at hid
        have hin : id ∈ w.store.walIds := hcore.2.2.1 ▸ hknown id hid
        have hsafe := hsafe id hid
        rwa [if_pos hin] at hsafe
      · exact absurd hid (Finset.notMem_empty id)
    · -- a new deletion
      have hwal₁ : WalHolds w₁.store entries := hcore.walHolds hwal
      obtain ⟨hholds, hmem, hkeep⟩ := mem_walIdsOf_appendWal hwal₁ hfb hid
      rcases hput with ⟨e, hput, hblobs⟩ | ⟨hput, hblobs⟩
      · rw [Fallible.bind_error hput]
        refine h.of_durable ?_ (Finset.empty_subset _) (by rw [hstore]; exact hholds)
        rw [World.durableIds, hblobs]
        exact hcore.durableIds
      · rw [Fallible.bind_ok hput]
        have hframe : Frame w₂ (Storage.syncIfDue fails order now now' w₂).1 :=
          Storage.frame_syncIfDue order now now' w₂
        have hdurable : (Storage.syncIfDue fails order now now' w₂).1.durableIds fb
            = walIdsOf fb (appendWal fb w₁.store id bytes).wal := by
          rw [hframe.durableIds, World.durableIds, hblobs, AList.lookup_insert, Option.getD_some,
            hstore]
        refine ⟨?_, ?_⟩
        · obtain ⟨entries', hentries'⟩ := hholds
          rw [← hstore] at hentries'
          exact ⟨entries', hframe.walHolds hentries'⟩
        · show owed \ _ ∪ _ ⊆ _
          rw [hdurable]
          refine Finset.union_subset ?_ ?_
          · -- what was owed is in the log in memory, hence in the new blob
            intro x hx
            rw [Finset.mem_sdiff] at hx
            have hcurrent := hsafe id hid
            rw [if_neg (hcore.2.2.1 ▸ hnew)] at hcurrent
            have hx₁ : x ∈ walIdsOf fb w.store.wal := hcurrent (h.owed hx.1)
            by_cases hfew : w.store.walEntries < maxWalEntries
            · rw [← hcore.2.1] at hx₁
              exact hkeep (hcore.2.2.2 ▸ hfew) hx₁
            · by_contra hgone
              refine hx.2 ?_
              show x ∈ if w.store.walEntries < maxWalEntries then ∅ else _
              rw [if_neg hfew, hframe.2.1, hstore, Finset.mem_sdiff]
              exact ⟨hx₁, hgone⟩
          · intro x hx
            unfold acknowledged at hx
            split at hx
            · next hstep _ =>
              cases hstep
              rw [hid, Option.mem_toFinset] at hx
              cases hx
              exact hmem
            · exact absurd hx (Finset.notMem_empty x)

/-- **One step** keeps the debts, when it is safe. -/
theorem Settled.step (hfb : fb.Bounded) {s : World × Finset String} (h : Settled fb s)
    {step : StorageStep} (hsafe : StepSafe fb s.1 step) :
    Settled fb (World.settle fb maxBufferSize fails s step) := by
  cases step with
  | persist order now now' bytes => exact h.persist hfb order now now' bytes hsafe
  | initializeStorage order now =>
    have hkept : WalKept s.1 (Storage.initializeStorage fails fb order now s.1).1 :=
      walKept_initializeStorage order now s.1
    refine h.of_durable ?_ (Finset.empty_subset _) (hkept.2 h.wal)
    exact congrArg (fun blob => walIdsOf fb (Option.getD blob [])) hkept.1
  | sync order =>
    have hframe : Frame s.1 (Storage.syncToBlobStore fails order s.1).1 :=
      Storage.frame_sync order s.1
    obtain ⟨entries, hwal⟩ := h.wal
    exact h.of_durable hframe.durableIds (Finset.empty_subset _) ⟨entries, hframe.walHolds hwal⟩
  | restart =>
    refine h.of_durable rfl (Finset.empty_subset _) ⟨[], rfl, rfl, ?_⟩
    exact fun entry hentry => absurd hentry not_mem_nil

end

/-- **Durability of deletions.**  In every run over one blob store, with any
blobs at the start and with failures anywhere, in which each step is safe: every
kind 5 whose `persist` returned `Ok` is in the durable log, unless a compaction
has taken it out since. -/
theorem acknowledged_deletions_durable (fb : FlatBuffers) (hfb : fb.Bounded) (maxBufferSize : ℕ)
    (fails : ℕ → Bool) (blobs : Map String Bytes) (steps : List StorageStep)
    (hsafe : RunSafe fb maxBufferSize fails
      { store := .new maxBufferSize, blobs := blobs, ops := 0 } steps) :
    let s := steps.foldl (World.settle fb maxBufferSize fails)
      ({ store := .new maxBufferSize, blobs := blobs, ops := 0 }, ∅)
    s.2 ⊆ s.1.durableIds fb := by
  suffices hgen : ∀ (steps : List StorageStep) (s : World × Finset String), Settled fb s →
      RunSafe fb maxBufferSize fails s.1 steps →
      Settled fb (steps.foldl (World.settle fb maxBufferSize fails) s) by
    refine (hgen steps _ ⟨⟨[], rfl, rfl, ?_⟩, Finset.empty_subset _⟩ hsafe).owed
    exact fun entry hentry => absurd hentry not_mem_nil
  intro steps
  induction steps with
  | nil => exact fun _ h _ => h
  | cons step rest ih => exact fun s h hsafe => ih _ (h.step hfb hsafe.1) hsafe.2

theorem noteReaders_bounded : noteReaders.Bounded := by
  intro bytes msg h
  show bytes.length < 4294967296
  have hmem : (bytes, msg) ∈ [(noteBytes, Message.nostrEvent note),
      (noteDeletionBytes, .nostrEvent noteDeletion)] := by
    obtain ⟨front, back, heq, -⟩ := List.lookup_eq_some_iff.mp h
    rw [heq]
    exact mem_append_right _ mem_cons_self
  rcases List.mem_cons.mp hmem with heq | hmem
  · cases heq
    decide +kernel
  · cases List.mem_singleton.mp hmem
    decide +kernel

/-- A storage that is opened and given a deletion, while every write succeeds. -/
theorem acknowledged_deletions_durable_noteDeletion :
    let s := [StorageStep.initializeStorage (.entries _) 0,
        .persist (.entries _) 1 1 noteDeletionBytes].foldl
      (World.settle noteReaders 8388608 fun _ => false)
      ({ store := .new 8388608, blobs := ∅, ops := 0 }, ∅)
    "d1" ∈ s.2 ∧ s.2 ⊆ s.1.durableIds noteReaders := by
  refine ⟨by decide +kernel, acknowledged_deletions_durable noteReaders noteReaders_bounded 8388608
    (fun _ => false) ∅ _ ⟨trivial, ?_, trivial⟩⟩
  -- the blob is not there yet
  have hblob : (World.step noteReaders 8388608 (fun _ => false)
      { store := .new 8388608, blobs := ∅, ops := 0 }
      (.initializeStorage (.entries _) 0)).1.blobs.lookup tombstonesKey = none := by
    decide +kernel
  have hids : (World.step noteReaders 8388608 (fun _ => false)
      { store := .new 8388608, blobs := ∅, ops := 0 }
      (.initializeStorage (.entries _) 0)).1.store.walIds = ∅ := by
    decide +kernel
  intro id _
  rw [hids, if_neg (Finset.notMem_empty id), durableIds_of_none noteReaders hblob]
  exact Finset.empty_subset _

/-- A storage that is opened, is given a deletion while the write of the log
fails, and is given it again. -/
def retriedDeletion : List StorageStep :=
  [.initializeStorage (.entries _) 0, .persist (.entries _) 1 1 noteDeletionBytes,
    .persist (.entries _) 2 2 noteDeletionBytes]

/-- The state it ends in; the sixteenth blob operation is the one that fails. -/
def retriedDeletionEnd : World × Finset String :=
  retriedDeletion.foldl (World.settle noteReaders 8388608 fun n => n = 15)
    ({ store := .new 8388608, blobs := ∅, ops := 0 }, ∅)

theorem not_durable_of_unwritten (s : World × Finset String) (id : String)
    (howed : id ∈ s.2) (hblob : s.1.blobs.lookup tombstonesKey = none) :
    ¬ s.2 ⊆ s.1.durableIds fb := by
  intro hsub
  have hin := hsub howed
  rw [durableIds_of_none fb hblob] at hin
  exact Finset.notMem_empty id hin

/-- The first `persist` fails, the second returns `Ok`, and the deletion is not
in the blob store. -/
theorem retriedDeletion_lost :
    ¬ retriedDeletionEnd.2 ⊆ retriedDeletionEnd.1.durableIds noteReaders :=
  not_durable_of_unwritten noteReaders retriedDeletionEnd "d1" (by decide +kernel)
    (by decide +kernel)

end Nipworker
