/-
The three copies of the deletion log, from loading to any number of persists.

`load_tombstones` walks over the blob with unchecked additions.  A length near
`2 ^ 32` wraps them around where a `usize` has 32 bits, as in the WebAssembly
workers: the end of the entry then lies before its start, passes the test for a
truncated tail, and the slice panics.
-/
import Nipworker.Storage.Restart

namespace Nipworker

open List

/-! ### The walk over the blob -/

/-- The loop of `load_tombstones` over a blob of `size` bytes of which `rest` is
left from `validLen` on, where a `usize` has `usize` values: the whole entries,
or `none` when a slice panics. -/
def walkWal (usize size validLen : ℕ) (rest : Bytes) : Option (List Bytes) :=
  if rest.length < 4 then some []
  else
    let len := U32.ofLeBytes rest
    let start := validLen + 4
    let stop := (start + len) % usize
    if stop > size then some []
    else if stop < start then none
    else
      (walkWal usize size stop (rest.drop (stop - validLen))).map
        ((rest.drop 4).take (stop - start) :: ·)
termination_by rest.length
decreasing_by
  have hstop : ¬ (validLen + 4 + U32.ofLeBytes rest) % usize < validLen + 4 := ‹_›
  rw [length_drop]
  omega

/-- Behind its whole entries the blob has a length that wraps a 32-bit `usize`
around. -/
def LengthWraps (blob : Bytes) : Prop :=
  let validLen := (frameLog (unframe blob)).length
  4 ≤ (blob.drop validLen).length ∧ 2 ^ 32 ≤ validLen + 4 + U32.ofLeBytes (blob.drop validLen)

instance (blob : Bytes) : Decidable (LengthWraps blob) :=
  inferInstanceAs (Decidable (_ ∧ _))

/-- The entries of a log at the front of the blob, and no longer log is there. -/
structure IsLongestLog (blob : Bytes) (entries : List Bytes) : Prop where
  atFront : frameLog entries <+: blob
  longest : ∀ others : List Bytes, (∀ entry ∈ others, entry.length < 2 ^ 32) →
    frameLog others <+: blob → others <+: entries

/-- No log at the front of the blob is longer. -/
theorem isLongestLog_unframe (blob : Bytes) : IsLongestLog blob (unframe blob) := by
  refine ⟨?_, ?_⟩
  · obtain ⟨⟨rest, hrest⟩, -⟩ := frameLog_unframe blob
    exact ⟨rest, hrest.symm⟩
  · intro others
    induction others generalizing blob with
    | nil => exact fun _ _ => nil_prefix
    | cons entry others ih =>
      rintro hall ⟨rest, hrest⟩
      -- the first entry is what `unframe` cuts off
      rw [frameLog_cons, append_assoc] at hrest
      have htake := takeFrame_frame (hall entry mem_cons_self) (frameLog others ++ rest)
      rw [hrest] at htake
      rw [unframe_of_takeFrame htake, cons_prefix_cons]
      exact ⟨rfl, ih _ (fun x hx => hall x (mem_cons_of_mem _ hx)) ⟨rest, rfl⟩⟩

theorem takeFrame_eq_of_short {bytes : Bytes} (h : ¬ bytes.length < 4) :
    takeFrame bytes = if bytes.length < 4 + U32.ofLeBytes bytes then none
      else some ((bytes.drop 4).take (U32.ofLeBytes bytes),
        bytes.drop (4 + U32.ofLeBytes bytes)) := by
  rw [takeFrame, if_neg h]

/-- **The walk** finds the whole entries at the front; it panics behind them when
the length that follows wraps around. -/
theorem walkWal_eq {usize size : ℕ} (husize : usize = 2 ^ 32 ∨ usize = 2 ^ 64)
    (hsize : 2 * size < usize) (rest : Bytes) : ∀ validLen : ℕ, size = validLen + rest.length →
    walkWal usize size validLen rest
      = if 4 ≤ (rest.drop (frameLog (unframe rest)).length).length ∧
            usize ≤ validLen + (frameLog (unframe rest)).length + 4
              + U32.ofLeBytes (rest.drop (frameLog (unframe rest)).length) then none
        else some (unframe rest) := by
  induction hn : rest.length using Nat.strong_induction_on generalizing rest with
  | _ n ih =>
    intro validLen hpos
    subst hn
    rw [walkWal]
    by_cases hshort : rest.length < 4
    · have htake : takeFrame rest = none := by rw [takeFrame, if_pos hshort]
      rw [if_pos hshort, unframe_of_takeFrame_none htake, frameLog_nil, length_nil,
        drop_zero, if_neg (by omega)]
    · rw [if_neg hshort]
      dsimp only
      have hlen := U32.ofLeBytes_lt rest
      have htake := takeFrame_eq_of_short hshort
      generalize hlenEq : U32.ofLeBytes rest = len at hlen htake
      by_cases hwhole : rest.length < 4 + len
      · -- no whole entry is left
        rw [if_pos hwhole] at htake
        rw [unframe_of_takeFrame_none htake, frameLog_nil, length_nil, drop_zero, hlenEq,
          Nat.add_zero]
        by_cases hwrap : usize ≤ validLen + 4 + len
        · have hmod : (validLen + 4 + len) % usize = validLen + 4 + len - usize := by
            rw [Nat.mod_eq_sub_mod hwrap, Nat.mod_eq_of_lt (by omega)]
          rw [hmod, if_neg (by omega), if_pos (by omega), if_pos ⟨by omega, hwrap⟩]
        · rw [Nat.mod_eq_of_lt (by omega), if_pos (by omega), if_neg (by omega)]
      · rw [if_neg hwhole] at htake
        rw [Nat.mod_eq_of_lt (by omega), if_neg (by omega), if_neg (by omega),
          show validLen + 4 + len - validLen = 4 + len by omega,
          show validLen + 4 + len - (validLen + 4) = len by omega]
        have hdrop : (rest.drop (4 + len)).length = rest.length - (4 + len) := length_drop
        rw [ih _ (by omega) (rest.drop (4 + len)) rfl (validLen + 4 + len) (by omega),
          unframe_of_takeFrame htake]
        -- the entry lies before everything the rest of the walk looks at
        have hentry : ((rest.drop 4).take len).length = len := by
          rw [length_take, length_drop]
          omega
        have hsplit : ∀ k, rest.drop (4 + len + k) = (rest.drop (4 + len)).drop k :=
          fun k => List.drop_drop.symm
        rw [length_frameLog_cons, hentry, hsplit,
          show validLen + (4 + len + (frameLog (unframe (rest.drop (4 + len)))).length)
            = validLen + 4 + len + (frameLog (unframe (rest.drop (4 + len)))).length by omega]
        split <;> rfl

theorem walkWal_blob {usize : ℕ} {blob : Bytes} (husize : usize = 2 ^ 32 ∨ usize = 2 ^ 64)
    (hsize : 2 * blob.length < usize) :
    walkWal usize blob.length 0 blob = some (unframe blob) ∧ (usize = 2 ^ 64 ∨ ¬ LengthWraps blob) ∨
      walkWal usize blob.length 0 blob = none ∧ ¬ (usize = 2 ^ 64 ∨ ¬ LengthWraps blob) := by
  have hwalk := walkWal_eq husize hsize blob 0 (Nat.zero_add _).symm
  rw [Nat.zero_add] at hwalk
  have hlen := U32.ofLeBytes_lt (blob.drop (frameLog (unframe blob)).length)
  have hprefix := (isLongestLog_unframe blob).atFront.length_le
  rcases husize with rfl | rfl
  · change _ = ite (LengthWraps blob) _ _ at hwalk
    by_cases hwraps : LengthWraps blob
    · rw [if_pos hwraps] at hwalk
      exact .inr ⟨hwalk, fun h => h.elim (by norm_num) fun h => h hwraps⟩
    · rw [if_neg hwraps] at hwalk
      exact .inl ⟨hwalk, .inr hwraps⟩
  · rw [if_neg (by omega)] at hwalk
    exact .inl ⟨hwalk, .inl rfl⟩

/-! ### Loading -/

/-- The effect of `load_tombstones` on a storage, once the blob is read; `none`
when it panics. -/
def replayWalIn (usize : ℕ) (fb : FlatBuffers) (s : PersistentStorage) (bytes : Bytes) :
    Option PersistentStorage :=
  (walkWal usize bytes.length 0 bytes).map fun entries =>
    let validLen := (entries.map fun entry => 4 + entry.length).sum
    let replayed := entries.foldl
      (fun acc entry =>
        let (st, id) := applyDeletionsFromBytes fb acc.1 entry
        (st, id.elim acc.2 fun id => insert id acc.2))
      (s.core.index, s.walIds)
    { s with
      core := { s.core with index := replayed.1 }
      walIds := replayed.2
      wal := bytes.take validLen
      walEntries := entries.length }

/-- `load_tombstones`, with its panic. -/
def Storage.loadTombstonesIn (usize : ℕ) (fails : ℕ → Bool) (fb : FlatBuffers) (w : World) :
    Option (World × Except StorageError Unit) :=
  match Storage.get fails tombstonesKey w with
  | (w, .error e) => some (w, .error e)
  | (w, .ok none) => some (w, .ok ())
  | (w, .ok (some bytes)) =>
    (replayWalIn usize fb w.store bytes).map fun store => ({ w with store := store }, .ok ())

theorem replayWalIn_of_walk {usize : ℕ} (fb : FlatBuffers) (s : PersistentStorage) {bytes : Bytes}
    (h : walkWal usize bytes.length 0 bytes = some (unframe bytes)) :
    replayWalIn usize fb s bytes = some (replayWal fb s bytes) := by
  rw [replayWalIn, h]
  rfl

/-! ### The representation -/

/-- Log, count and id set of a storage all stand for these entries. -/
structure WalRepresents (fb : FlatBuffers) (s : PersistentStorage) (entries : List Bytes) : Prop
    extends WalHolds s entries where
  ids : s.walIds = (entries.filterMap (deletionEventId fb)).toFinset

variable {fb : FlatBuffers} {s : PersistentStorage} {entries : List Bytes}

theorem WalRepresents.congr {s' : PersistentStorage}
    (h : WalRepresents fb s entries) (hwal : s'.wal = s.wal) (hids : s'.walIds = s.walIds)
    (hcount : s'.walEntries = s.walEntries) : WalRepresents fb s' entries :=
  ⟨⟨hwal.trans h.wal, hcount.trans h.count, h.bounded⟩, hids.trans h.ids⟩

theorem replayWal_represents (fb : FlatBuffers) (hnew : s.walIds = ∅)
    (bytes : Bytes) : WalRepresents fb (replayWal fb s bytes) (unframe bytes) := by
  refine ⟨replayWal_holds fb s bytes, ?_⟩
  rw [replayWal]
  dsimp only
  rw [foldl_replay, hnew, Finset.empty_union]

theorem WalRepresents.appendWal
    (h : WalRepresents fb s entries) {id : String} {bytes : Bytes} (hbytes : bytes.length < 2 ^ 32)
    (hid : deletionEventId fb bytes = some id) :
    WalRepresents fb (Nipworker.appendWal fb s id bytes)
      (newest maxWalEntries (entries ++ [bytes])) := by
  obtain ⟨hholds, hids⟩ := appendWal_newest fb h.toWalHolds id hbytes
  refine ⟨hholds, ?_⟩
  rw [hids]
  by_cases hfew : entries.length < maxWalEntries
  · have hlength : (entries ++ [bytes]).length ≤ maxWalEntries := by
      rw [length_append, length_singleton]
      omega
    rw [if_pos hfew, newest_eq_self hlength, filterMap_append, toFinset_append, h.ids,
      filterMap_cons_some hid, filterMap_nil, toFinset_cons, toFinset_nil,
      Finset.insert_eq, Finset.union_comm]
    rfl
  · rw [if_neg hfew, hholds.wal, walIdsOf_frameLog fb hholds.bounded]

/-! ### Persists -/

/-- A call of `persist`, with what it meets: the walk order of the hash maps and
two readings of the clock. -/
structure PersistCall where
  order : IterOrder ShardId
  now : ℕ
  now' : ℕ
  bytes : Bytes

section

variable (fails : ℕ → Bool) (fb : FlatBuffers)

def World.persist (w : World) (call : PersistCall) : World :=
  (Storage.persist fails fb call.order call.now call.now' call.bytes w).1

def World.persistAll (w : World) (calls : List PersistCall) : World :=
  calls.foldl (World.persist fails fb) w

end

/-- The call appends to the log: the core accepts the message, and it is a kind
5 whose id is not in the id set. -/
def Appends (fb : FlatBuffers) (w : World) (call : PersistCall) : Prop :=
  (∃ core, w.store.core.addWorkerMessageBytes fb call.bytes = .ok core) ∧
    ∃ id, deletionEventId fb call.bytes = some id ∧ id ∉ w.store.walIds

def SameWal (w w' : World) : Prop :=
  w'.store.wal = w.store.wal ∧ w'.store.walIds = w.store.walIds ∧
    w'.store.walEntries = w.store.walEntries

theorem Frame.sameWal {w w' : World} (h : Frame w w') : SameWal w w' := h.2

/-- **One `persist`**: when it appends, the log is then that of the newest
entries, with the new one at its end; else nothing of it changes. -/
theorem WalRepresents.persist (hfb : fb.Bounded) {w : World}
    (h : WalRepresents fb w.store entries) (fails : ℕ → Bool) (call : PersistCall) :
    (Appends fb w call → WalRepresents fb (w.persist fails fb call).store
      (newest maxWalEntries (entries ++ [call.bytes]))) ∧
    (¬ Appends fb w call → SameWal w (w.persist fails fb call)) := by
  obtain ⟨order, now, now', bytes⟩ := call
  show (_ → WalRepresents fb (Storage.persist fails fb order now now' bytes w).1.store _) ∧
    (_ → SameWal w (Storage.persist fails fb order now now' bytes w).1)
  unfold Storage.persist
  have hcore : Frame w (Storage.corePersist fb bytes w).1 := Storage.frame_corePersist bytes w
  have hresult : (Storage.corePersist fb bytes w).2 = .ok () ↔
      ∃ core, w.store.core.addWorkerMessageBytes fb bytes = .ok core := by
    rw [Storage.corePersist]
    rcases w.store.core.addWorkerMessageBytes fb bytes with e | core
    · refine iff_of_false ?_ ?_
      · intro h
        cases h
      · rintro ⟨core, h⟩
        cases h
    · exact iff_of_true rfl ⟨core, rfl⟩
  rcases hc : Storage.corePersist fb bytes w with ⟨w₁, e | ⟨⟩⟩ <;> rw [hc] at hcore hresult
  · -- the core refuses the message
    rw [Fallible.bind_error hc]
    refine ⟨?_, fun _ => hcore.sameWal⟩
    rintro ⟨haccepted, -⟩
    cases hresult.mpr haccepted
  · rw [Fallible.bind_ok hc]
    have hids : w₁.store.walIds = w.store.walIds := hcore.2.2.1
    rcases persistDeletion_cases fb fails bytes w₁ with
      ⟨hnone, hknown⟩ | ⟨id, w₂, hid, hnew, hstore, hput⟩
    · -- no deletion, or a known one
      rw [Fallible.bind_ok hnone]
      have hframe : Frame w (Storage.syncIfDue fails order now now' w₁).1 :=
        IsTrans.trans _ _ _ hcore (Storage.frame_syncIfDue order now now' w₁)
      refine ⟨?_, fun _ => hframe.sameWal⟩
      rintro ⟨-, id, hid, hfresh⟩
      exact absurd (hids ▸ hknown id hid) hfresh
    · refine ⟨fun _ => ?_, fun hnot => absurd ⟨hresult.mp rfl, id, hid, hids ▸ hnew⟩ hnot⟩
      have happend : WalRepresents fb w₂.store (newest maxWalEntries (entries ++ [bytes])) := by
        rw [hstore]
        exact (h.congr hcore.2.1 hids hcore.2.2.2).appendWal (deletionEventId_bounded hfb hid) hid
      rcases hput with ⟨e, hput, -⟩ | ⟨hput, -⟩
      · -- the write of the blob fails; the log in memory keeps the entry
        rw [Fallible.bind_error hput]
        exact happend
      · rw [Fallible.bind_ok hput]
        have hframe : Frame w₂ (Storage.syncIfDue fails order now now' w₂).1 :=
          Storage.frame_syncIfDue order now now' w₂
        exact happend.congr hframe.2.1 hframe.2.2.1 hframe.2.2.2

/-! ### Runs -/

/-- What is in memory along a run: after loading the longest log at the front of
the blob, and then, after any of the calls, a log with its count and id set. -/
structure WalRun (fb : FlatBuffers) (fails : ℕ → Bool) (blob : Bytes) (w : World)
    (calls : List PersistCall) : Prop where
  loaded : ∃ entries, WalRepresents fb w.store entries ∧ IsLongestLog blob entries
  represented : ∀ before, before <+: calls →
    ∃ entries, WalRepresents fb (w.persistAll fails fb before).store entries
  /-- A call that appends keeps the newest entries, and no more of them than
  `maxWalEntries`. -/
  appended : ∀ before call, before ++ [call] <+: calls →
    Appends fb (w.persistAll fails fb before) call → ∀ entries,
    WalRepresents fb (w.persistAll fails fb before).store entries →
      WalRepresents fb (w.persistAll fails fb (before ++ [call])).store
        (newest maxWalEntries (entries ++ [call.bytes])) ∧
      (w.persistAll fails fb (before ++ [call])).store.walEntries ≤ maxWalEntries
  /-- Any other call leaves log, count and id set as they are. -/
  kept : ∀ before call, before ++ [call] <+: calls →
    ¬ Appends fb (w.persistAll fails fb before) call →
      SameWal (w.persistAll fails fb before) (w.persistAll fails fb (before ++ [call]))

theorem World.persistAll_concat (fails : ℕ → Bool) (fb : FlatBuffers) (w : World)
    (calls : List PersistCall) (call : PersistCall) :
    w.persistAll fails fb (calls ++ [call]) = (w.persistAll fails fb calls).persist fails fb call := by
  rw [World.persistAll, foldl_append]
  rfl

theorem WalRepresents.persistAll (hfb : fb.Bounded) (fails : ℕ → Bool)
    {w : World} (h : WalRepresents fb w.store entries) (calls : List PersistCall) :
    ∃ entries', WalRepresents fb (w.persistAll fails fb calls).store entries' := by
  induction calls using List.reverseRecOn with
  | nil => exact ⟨entries, h⟩
  | append_singleton calls call ih =>
    obtain ⟨entries', hrep⟩ := ih
    obtain ⟨happends, hsame⟩ := hrep.persist hfb fails call
    rw [World.persistAll_concat]
    by_cases hcase : Appends fb (w.persistAll fails fb calls) call
    · exact ⟨_, happends hcase⟩
    · obtain ⟨hwal, hids, hcount⟩ := hsame hcase
      exact ⟨entries', hrep.congr hwal hids hcount⟩

/-- **The tombstone log over a run.**  For every blob, every fresh storage and
every list of persists, with write failures anywhere: loading and the persists
keep log, count and id set in step, exactly if the `usize` is wide enough for
the length that follows the whole entries of the blob. -/
theorem walRun_iff (fb : FlatBuffers) (hfb : fb.Bounded) {usize : ℕ}
    (husize : usize = 2 ^ 32 ∨ usize = 2 ^ 64) (fails : ℕ → Bool) (w : World)
    (hnew : w.store.walIds = ∅) {blob : Bytes} (hblob : w.blobs.lookup tombstonesKey = some blob)
    (hread : fails w.ops = false) (hsize : 2 * blob.length < usize) (calls : List PersistCall) :
    (∃ w', Storage.loadTombstonesIn usize fails fb w = some (w', .ok ()) ∧
        WalRun fb fails blob w' calls) ↔
      usize = 2 ^ 64 ∨ ¬ LengthWraps blob := by
  have hget : Storage.get fails tombstonesKey w
      = ({ w with ops := w.ops + 1 }, .ok (some blob)) := by
    rw [Storage.get, hread, if_neg Bool.false_ne_true, hblob]
  have hload : Storage.loadTombstonesIn usize fails fb w
      = (replayWalIn usize fb w.store blob).map fun store =>
          ({ w with ops := w.ops + 1, store := store }, .ok ()) := by
    rw [Storage.loadTombstonesIn, hget]
  rcases walkWal_blob husize hsize with ⟨hwalk, hwide⟩ | ⟨hwalk, hwraps⟩
  · refine iff_of_true ⟨_, by rw [hload, replayWalIn_of_walk fb _ hwalk]; rfl, ?_⟩ hwide
    have hrep : WalRepresents fb
        ({ w with ops := w.ops + 1, store := replayWal fb w.store blob } : World).store
        (unframe blob) := replayWal_represents fb hnew blob
    refine ⟨⟨_, hrep, isLongestLog_unframe blob⟩, ?_, ?_, ?_⟩
    · exact fun before _ => WalRepresents.persistAll hfb fails hrep before
    · intro before call _ happends entries hentries
      rw [World.persistAll_concat]
      have hafter := (hentries.persist hfb fails call).1 happends
      refine ⟨hafter, ?_⟩
      rw [hafter.count, length_newest]
      exact min_le_left _ _
    · intro before call _ happends
      obtain ⟨entries, hentries⟩ := WalRepresents.persistAll hfb fails hrep before
      rw [World.persistAll_concat]
      exact (hentries.persist hfb fails call).2 happends
  · refine iff_of_false ?_ hwraps
    rintro ⟨w', hw', -⟩
    rw [hload, replayWalIn, hwalk] at hw'
    cases hw'

def storedTombstones (blob : Bytes) : World :=
  { store := .new 8388608, blobs := AList.insert tombstonesKey blob ∅, ops := 0 }

/-- A deletion and a truncated tail in the blob, and then the deletion again. -/
theorem walRun_iff_truncatedTail :
    (∃ w', Storage.loadTombstonesIn (2 ^ 64) (fun _ => false) noteReaders
          (storedTombstones (frame noteDeletionBytes ++ [7, 0])) = some (w', .ok ()) ∧
        WalRun noteReaders (fun _ => false) (frame noteDeletionBytes ++ [7, 0]) w'
          [⟨.entries _, 1, 1, noteDeletionBytes⟩]) ↔
      2 ^ 64 = 2 ^ 64 ∨ ¬ LengthWraps (frame noteDeletionBytes ++ [7, 0]) :=
  walRun_iff noteReaders noteReaders_bounded (.inr rfl) (fun _ => false)
    (storedTombstones (frame noteDeletionBytes ++ [7, 0])) rfl (AList.lookup_insert _) rfl
    (by decide +kernel) [⟨.entries _, 1, 1, noteDeletionBytes⟩]

/-- Four bytes that announce an entry of `2 ^ 32 - 1` bytes: with a 32-bit
`usize` the entry ends at 3, before its start at 4. -/
theorem oversizedLength_panics :
    ¬ ∃ w', Storage.loadTombstonesIn (2 ^ 32) (fun _ => false) noteReaders
          (storedTombstones [255, 255, 255, 255]) = some (w', .ok ()) ∧
        WalRun noteReaders (fun _ => false) [255, 255, 255, 255] w' [] := by
  rintro ⟨w', hw', -⟩
  have hwalk : walkWal (2 ^ 32) 4 0 [255, 255, 255, 255] = none := by
    rw [walkWal, if_neg (by decide)]
    dsimp only
    rw [if_neg (by decide), if_pos (by decide)]
  have hload : Storage.loadTombstonesIn (2 ^ 32) (fun _ => false) noteReaders
      (storedTombstones [255, 255, 255, 255])
      = (replayWalIn (2 ^ 32) noteReaders (.new 8388608) [255, 255, 255, 255]).map fun store =>
          ({ storedTombstones [255, 255, 255, 255] with ops := 1, store := store }, .ok ()) := rfl
  rw [hload, replayWalIn, show ([255, 255, 255, 255] : Bytes).length = 4 from rfl, hwalk] at hw'
  cases hw'

end Nipworker
