/-
Indexing an event and NIP-09 deletions (`storage/db/index.rs`).

`indexEvent` puts an event under its keys, checks it against the recorded
tombstones (`applyTombstonesToEvent`) and, for a kind 5, runs its deletion
tags (`processDeletionTags`).  `indexParsedEvent` and `indexNostrEvent` are
the two entry points; `applyDeletions` is the replay of a stored deletion
without indexing it.

An event is *suppressed* when its key is in `deletedKeys`: this is the only
thing the query path looks at.
-/
import Nipworker.Lib.Text
import Nipworker.Storage.Types

namespace Nipworker

/-- The index part of a `NostrDB`. -/
structure IndexState where
  indexes : DatabaseIndexes
  tombstones : Tombstones

def IndexState.empty : IndexState :=
  { indexes := DatabaseIndexes.new, tombstones := Tombstones.default }

def dropPlus : List Char → List Char
  | '+' :: rest => rest
  | cs => cs

/-- `str::parse::<u16>`: an optional plus sign, then decimal digits, at most
`u16::MAX`. -/
def parseU16 (s : String) : Option UInt16 :=
  match Text.parseDecimal (dropPlus s.toList) with
  | some n => if n < 65536 then some (UInt16.ofNat n) else none
  | none => none

/-- The keys an address deletion covers: the intersection of the `d`, kind and
pubkey sets, smallest set first, guarded by the record's creation time. -/
def addressTargets (ix : DatabaseIndexes) (kind : UInt16) (author d : String)
    (deletionCreatedAt : ℕ) : Finset EventKey :=
  match (ix.eventsByTag .d).lookup d, ix.eventsByKind.lookup kind,
      ix.eventsByPubkey.lookup author with
  | some dSet, some kindSet, some pubSet =>
    match List.insertionSort (fun s t : Finset EventKey => s.card ≤ t.card)
        [dSet, kindSet, pubSet] with
    | [] => ∅
    | driver :: others =>
      driver.filter fun key =>
        (∀ s ∈ others, key ∈ s) ∧
          ((ix.eventsByKey.lookup key).any fun record =>
            record.createdAt ≤ deletionCreatedAt) = true
  | _, _, _ => ∅

/-- One `e` tag of a deletion: suppress the target when it is cached and
written by the same author, drop the reference when the author differs, and
otherwise keep it pending.  A pending reference is replaced by a newer one. -/
def processETag (ix : DatabaseIndexes) (author : String) (deletionCreatedAt : ℕ)
    (tombstones : Tombstones) (target : String) : Tombstones :=
  match ix.eventsById.lookup target with
  | some record =>
    if record.key ∈ ix.eventsByPubkey.bucket author then
      { tombstones with deletedKeys := insert record.key tombstones.deletedKeys }
    else tombstones
  | none =>
    match tombstones.pendingIds.lookup target with
    | some slot =>
      if deletionCreatedAt > slot.2 then
        { tombstones with
          pendingIds := tombstones.pendingIds.insert target (author, deletionCreatedAt) }
      else tombstones
    | none =>
      { tombstones with
        pendingIds := tombstones.pendingIds.insert target (author, deletionCreatedAt) }

/-- One `a` tag of a deletion, `kind:pubkey:d`: suppress the cached versions it
covers and record the address with the newest deletion time. -/
def processATag (ix : DatabaseIndexes) (author : String) (deletionCreatedAt : ℕ)
    (tombstones : Tombstones) (address : String) : Tombstones :=
  match Text.splitn3 ':' address with
  | none => tombstones
  | some (kindStr, addrAuthor, d) =>
    if addrAuthor ≠ author then tombstones
    else
      match parseU16 kindStr with
      | none => tombstones
      | some kind =>
        { tombstones with
          deletedKeys :=
            tombstones.deletedKeys ∪ addressTargets ix kind addrAuthor d deletionCreatedAt
          deletedAddresses := tombstones.deletedAddresses.insert address
            (match tombstones.deletedAddresses.lookup address with
              | some ts => max ts deletionCreatedAt
              | none => deletionCreatedAt) }

def processDeletionTag (ix : DatabaseIndexes) (author : String) (deletionCreatedAt : ℕ)
    (tombstones : Tombstones) (tag : StringVec) : Tombstones :=
  match tag.pair with
  | none => tombstones
  | some (name, value) =>
    if name = "e" then processETag ix author deletionCreatedAt tombstones value
    else if name = "a" then processATag ix author deletionCreatedAt tombstones value
    else tombstones

def processDeletionTags (st : IndexState) (author : String) (deletionCreatedAt : ℕ)
    (tags : List StringVec) : IndexState :=
  { st with
    tombstones :=
      tags.foldl (processDeletionTag st.indexes author deletionCreatedAt) st.tombstones }

/-- The address of a parameterized replaceable event,
`format!("{}:{}:{}", kind, author, d)`. -/
def addressText (kind : UInt16) (author d : String) : String :=
  toString kind.toNat ++ ":" ++ author ++ ":" ++ d

/-- `(30000..40000).contains(&kind)`. -/
def isAddressable (kind : UInt16) : Bool := 30000 ≤ kind.toNat ∧ kind.toNat < 40000

/-- The part of `apply_tombstones_to_event` that looks at address deletions. -/
def applyAddressTombstone (tombstones : Tombstones) (eventKey : EventKey) (author : String)
    (kind : UInt16) (createdAt : ℕ) (dTag : Option String) : Tombstones :=
  if isAddressable kind then
    match dTag with
    | none => tombstones
    | some d =>
      match tombstones.deletedAddresses.lookup (addressText kind author d) with
      | some deletionTs =>
        if createdAt ≤ deletionTs then
          { tombstones with deletedKeys := insert eventKey tombstones.deletedKeys }
        else tombstones
      | none => tombstones
  else tombstones

def applyTombstonesToEvent (tombstones : Tombstones) (eventKey : EventKey)
    (eventId author : String) (kind : UInt16) (createdAt : ℕ) (dTag : Option String) :
    Tombstones :=
  if tombstones.isEmpty then tombstones
  else
    match tombstones.pendingIds.lookup eventId with
    | some (deletionAuthor, _) =>
      if deletionAuthor = author then
        { tombstones with deletedKeys := insert eventKey tombstones.deletedKeys }
      else applyAddressTombstone tombstones eventKey author kind createdAt dTag
    | none => applyAddressTombstone tombstones eventKey author kind createdAt dTag

/-- The value of the first `d` tag. -/
def firstDTag : List StringVec → Option String
  | [] => none
  | tag :: rest =>
    match tag.pair with
    | some (name, value) => if name = "d" then some value else firstDTag rest
    | none => firstDTag rest

/-- The index entries of one event: record, kind, pubkey and tags. -/
def DatabaseIndexes.indexFields (ix : DatabaseIndexes) (ev : Event) (offset : ℕ) :
    DatabaseIndexes × EventKey :=
  let (ix, key) := ix.upsertEventRecord ev.id offset ev.createdAt
  let ix := { ix with eventsByKind := ix.eventsByKind.add ev.kind key }
  let ix := { ix with eventsByPubkey := ix.eventsByPubkey.add ev.pubkey key }
  (ev.tags.foldl (DatabaseIndexes.addTag key) ix, key)

/-- The common body of `index_parsed_event` and `index_nostr_event`. -/
def indexEvent (st : IndexState) (ev : Event) (offset : ℕ) : IndexState :=
  let (ix, key) := st.indexes.indexFields ev offset
  let tombstones := applyTombstonesToEvent st.tombstones key ev.id ev.pubkey ev.kind ev.createdAt
    (firstDTag ev.tags)
  let st : IndexState := { indexes := ix, tombstones := tombstones }
  if ev.kind = eventDeletion then processDeletionTags st ev.pubkey ev.createdAt ev.tags else st

def indexParsedEvent (st : IndexState) (ev : ParsedEvent) (offset : ℕ) : IndexState :=
  indexEvent st ev.event offset

def indexNostrEvent (st : IndexState) (ev : NostrEvent) (offset : ℕ) : IndexState :=
  indexEvent st ev.event offset

inductive StoredEvent
  | parsed (ev : ParsedEvent)
  | nostr (ev : NostrEvent)
  deriving DecidableEq, Repr

def StoredEvent.event : StoredEvent → Event
  | .parsed ev => ev.event
  | .nostr ev => ev.event

def indexStoredEvent (st : IndexState) (ev : StoredEvent) (offset : ℕ) : IndexState :=
  match ev with
  | .parsed ev => indexParsedEvent st ev offset
  | .nostr ev => indexNostrEvent st ev offset

theorem indexStoredEvent_eq (st : IndexState) (ev : StoredEvent) (offset : ℕ) :
    indexStoredEvent st ev offset = indexEvent st ev.event offset := by
  cases ev <;> rfl

/-- The effect of `apply_deletions_from_bytes` once the bytes are decoded: a
kind 5 runs its deletion tags, anything else is ignored. -/
def applyDeletions (st : IndexState) (ev : Event) : IndexState :=
  if ev.kind = eventDeletion then processDeletionTags st ev.pubkey ev.createdAt ev.tags else st

/-- The event `id` is indexed and hidden from queries. -/
def IndexState.Suppressed (st : IndexState) (id : String) : Prop :=
  ∃ record, st.indexes.record id = some record ∧ record.key ∈ st.tombstones.deletedKeys

instance (st : IndexState) (id : String) : Decidable (st.Suppressed id) :=
  match h : st.indexes.record id with
  | none => .isFalse fun ⟨_, hr, _⟩ => by rw [h] at hr; cases hr
  | some record =>
    if hk : record.key ∈ st.tombstones.deletedKeys then .isTrue ⟨record, h, hk⟩
    else .isFalse fun ⟨r, hr, hm⟩ => by rw [h] at hr; cases hr; exact hk hm

end Nipworker
